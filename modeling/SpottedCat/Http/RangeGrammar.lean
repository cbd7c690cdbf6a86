import SpottedCat.Http.RangeText
import SpottedCat.Lib.Triple

/-!
# The grammar of `Content-Range` (`default_http_client.rs:393-459`)

`RangeForm` is the language that `parse_content_range` accepts, over the characters that
`HeaderValue::to_str` lets through:

    ws* 'bytes' tab* SP  ws* num ws* '-'  ws* num ws* '/'  ws* (num | '*') ws*

* `Padded.iff_trim`: a field surrounded by blanks is what `trim` leaves of it;
* `parseContentRange_iff`: the parser as a relation between a value and its pieces;
* `Pieces.form`, `RangeForm.pieces`: soundness and completeness;
* `content_range_grammar`: both, the error of every other text, and the round trip.
-/

namespace SpottedCat

/-! ## The language -/

/-- Visible ASCII, space and tab. -/
def HeaderText (cs : List Char) : Prop := ∀ c ∈ cs, c = '\t' ∨ 0x20 ≤ c.toNat ∧ c.toNat ≤ 0x7e

def Blanks (cs : List Char) : Prop := ∀ c ∈ cs, c = ' ' ∨ c = '\t'

def Tabs (cs : List Char) : Prop := ∀ c ∈ cs, c = '\t'

/-- An optional `+` and decimal digits, with a value in `u64`. -/
def NumText (n : Nat) (cs : List Char) : Prop :=
  ∃ digits, (cs = digits ∨ cs = '+' :: digits) ∧ digits ≠ [] ∧ (∀ c ∈ digits, isDigit c = true) ∧
    digitsValue digits = n ∧ n < u64Max

def TotalText : Option Nat → List Char → Prop
  | some n => NumText n
  | none => fun cs => cs = ['*']

/-- Blanks around a field. -/
def Padded (P : List Char → Prop) (cs : List Char) : Prop :=
  ∃ before field after, cs = before ++ field ++ after ∧ Blanks before ∧ Blanks after ∧ P field

def UnitText (cs : List Char) : Prop :=
  ∃ before tabs, cs = before ++ "bytes".toList ++ tabs ∧ Blanks before ∧ Tabs tabs

structure RangeForm (cs : List Char) (start last : Nat) (total : Option Nat) : Prop where
  text : ∃ unit startS endS totalS, cs = unit ++ ' ' :: (startS ++ '-' :: (endS ++ '/' :: totalS)) ∧
    UnitText unit ∧ Padded (NumText start) startS ∧ Padded (NumText last) endS ∧
      Padded (TotalText total) totalS
  order : start ≤ last

/-! ## Blanks and `trim` -/

theorem Blanks.append {v w : List Char} (hv : Blanks v) (hw : Blanks w) : Blanks (v ++ w) := by
  intro c hc
  rcases List.mem_append.1 hc with h | h
  · exact hv c h
  · exact hw c h

theorem Tabs.blanks {cs : List Char} (h : Tabs cs) : Blanks cs := fun c hc => .inr (h c hc)

theorem Blanks.white {w : List Char} (hw : Blanks w) : ∀ c ∈ w, isWhitespace c = true := by
  intro c hc
  rcases hw c hc with rfl | rfl <;> decide

/-- In a header, blanks are the only white space. -/
theorem HeaderText.blank {cs : List Char} (h : HeaderText cs) {c : Char} (hc : c ∈ cs)
    (hw : SpottedCat.isWhitespace c = true) : c = ' ' ∨ c = '\t' := by
  rcases h c hc with rfl | ⟨hlow, hhigh⟩
  · exact .inr rfl
  · have hlow' : 0x20 ≤ c.val.toNat := hlow
    have hhigh' : c.val.toNat ≤ 0x7e := hhigh
    simp only [SpottedCat.isWhitespace, Bool.or_eq_true, Bool.and_eq_true, decide_eq_true_eq,
      ← UInt32.toNat_inj, UInt32.le_iff_toNat_le, UInt32.reduceToNat] at hw
    have hspace : c.val.toNat = 0x20 := by omega
    exact .inl (Char.ext (UInt32.toNat_inj.1 hspace))

theorem HeaderText.mono {cs ds : List Char} (h : HeaderText cs) (hsub : ∀ c ∈ ds, c ∈ cs) : HeaderText ds :=
  fun c hc => h c (hsub c hc)

theorem dropWhile_blanks {w cs : List Char} (hw : Blanks w) :
    (w ++ cs).dropWhile isWhitespace = cs.dropWhile isWhitespace :=
  List.dropWhile_append_of_pos hw.white

/-- Blanks around a text do not change what `trim` makes of it. -/
theorem trim_blanks {v w : List Char} (cs : List Char) (hv : Blanks v) (hw : Blanks w) :
    trim (v ++ cs ++ w) = trim cs := by
  have hreverse : Blanks w.reverse := fun c hc => hw c (List.mem_reverse.1 hc)
  unfold trim
  rw [List.append_assoc, dropWhile_blanks hv, List.dropWhile_append]
  split
  · rename_i hempty
    rw [List.isEmpty_iff.1 hempty, ← List.append_nil w, dropWhile_blanks hw]
    rfl
  · rw [List.reverse_append, dropWhile_blanks hreverse]

/-- What `trim` takes off a header text. -/
theorem HeaderText.trim {cs : List Char} (h : HeaderText cs) :
    ∃ v w, cs = v ++ SpottedCat.trim cs ++ w ∧ Blanks v ∧ Blanks w := by
  refine ⟨cs.takeWhile SpottedCat.isWhitespace,
    ((cs.dropWhile SpottedCat.isWhitespace).reverse.takeWhile SpottedCat.isWhitespace).reverse, ?_, ?_, ?_⟩
  · unfold SpottedCat.trim
    rw [List.append_assoc, ← List.reverse_append, List.takeWhile_append_dropWhile, List.reverse_reverse,
      List.takeWhile_append_dropWhile]
  · intro c hc
    exact h.blank ((List.takeWhile_sublist _).subset hc) (List.all_eq_true.1 List.all_takeWhile c hc)
  · intro c hc
    have hc' := List.mem_reverse.1 hc
    have hmem := List.mem_reverse.1 ((List.takeWhile_sublist _).subset hc')
    exact h.blank ((List.dropWhile_sublist _).subset hmem) (List.all_eq_true.1 List.all_takeWhile c hc')

/-- A text without white space. -/
def Solid (cs : List Char) : Prop := cs ≠ [] ∧ ∀ c ∈ cs, isWhitespace c = false

theorem Solid.trim {cs : List Char} (h : Solid cs) : SpottedCat.trim cs = cs :=
  trim_of_ends List.prefix_rfl List.suffix_rfl h h

/-- **A field among blanks** is what `trim` leaves. -/
theorem Padded.iff_trim {P : List Char → Prop} {cs : List Char} (h : HeaderText cs)
    (hsolid : ∀ field, P field → Solid field) : Padded P cs ↔ P (trim cs) := by
  constructor
  · rintro ⟨before, field, after, rfl, hbefore, hafter, hfield⟩
    rwa [trim_blanks _ hbefore hafter, (hsolid field hfield).trim]
  · intro hfield
    obtain ⟨v, w, hcs, hv, hw⟩ := h.trim
    exact ⟨v, trim cs, w, hcs, hv, hw, hfield⟩

/-! ## Numbers -/

theorem stripPlus_of_digits {digits : List Char} (h : ∀ c ∈ digits, isDigit c = true) :
    stripPlus digits = digits := by
  unfold stripPlus
  split
  · rename_i rest
    exact absurd (h '+' List.mem_cons_self) (by decide)
  · rfl

theorem parseU64_iff {cs : List Char} {n : Nat} : parseU64 cs = some n ↔ NumText n cs := by
  constructor
  · intro h
    unfold parseU64 at h
    simp only at h
    split at h
    · rename_i hdigits
      obtain ⟨hne, hall, hlt⟩ := hdigits
      cases h
      refine ⟨stripPlus cs, ?_, hne, List.all_eq_true.1 hall, rfl, hlt⟩
      unfold stripPlus
      split
      · exact .inr rfl
      · exact .inl rfl
    · cases h
  · rintro ⟨digits, hcs, hne, hall, rfl, hlt⟩
    have hstrip : stripPlus cs = digits := by
      rcases hcs with rfl | rfl
      · exact stripPlus_of_digits hall
      · rfl
    unfold parseU64
    simp only [hstrip]
    exact if_pos ⟨hne, List.all_eq_true.2 hall, hlt⟩

theorem NumText.lt {n : Nat} {cs : List Char} (h : NumText n cs) : n < u64Max := by
  obtain ⟨_, -, -, -, -, hlt⟩ := h
  exact hlt

theorem NumText.mem {n : Nat} {cs : List Char} (h : NumText n cs) {c : Char} (hc : c ∈ cs) :
    c = '+' ∨ isDigit c = true := by
  obtain ⟨digits, rfl | rfl, -, hall, -⟩ := h
  · exact .inr (hall c hc)
  · rcases List.mem_cons.1 hc with rfl | hc
    · exact .inl rfl
    · exact .inr (hall c hc)

theorem NumText.solid {n : Nat} {cs : List Char} (h : NumText n cs) : Solid cs := by
  refine ⟨?_, fun c hc => ?_⟩
  · obtain ⟨digits, rfl | rfl, hne, -⟩ := h
    · exact hne
    · exact List.cons_ne_nil _ _
  · rcases h.mem hc with rfl | hdigit
    · decide
    · exact isWhitespace_digit hdigit

theorem TotalText.solid {total : Option Nat} {cs : List Char} (h : TotalText total cs) : Solid cs := by
  cases total with
  | some n => exact NumText.solid h
  | none =>
    cases h
    exact ⟨List.cons_ne_nil _ _, by intro c hc; rw [List.mem_singleton.1 hc]; decide⟩

/-! ## The splits -/

theorem splitOnce_iff {sep : Char} {cs before after : List Char} :
    splitOnce sep cs = some (before, after) ↔ cs = before ++ sep :: after ∧ sep ∉ before := by
  constructor
  · intro h
    induction cs generalizing before with
    | nil => cases h
    | cons c cs ih =>
      unfold splitOnce at h
      split at h
      · rename_i hsep
        cases h
        exact ⟨by rw [hsep]; rfl, List.not_mem_nil⟩
      · rename_i hsep
        obtain ⟨⟨before', after'⟩, hrest, heq⟩ := Option.map_eq_some_iff.1 h
        cases heq
        obtain ⟨rfl, hnot⟩ := ih hrest
        refine ⟨rfl, ?_⟩
        rw [List.mem_cons, not_or]
        exact ⟨Ne.symm hsep, hnot⟩
  · rintro ⟨rfl, hnot⟩
    exact splitOnce_append _ hnot

/-- The pieces that the parser cuts a value into. -/
structure Pieces (cs : List Char) (start last : Nat) (total : Option Nat)
    (rangeAndTotal rangePart totalPart startS endS : List Char) : Prop where
  unit : splitUnit (trim cs) = ("bytes".toList, rangeAndTotal)
  slash : splitOnce '/' rangeAndTotal = some (rangePart, totalPart)
  dash : splitOnce '-' (trim rangePart) = some (startS, endS)
  startText : NumText start (trim startS)
  lastText : NumText last (trim endS)
  totalText : TotalText total (trim totalPart)
  order : start ≤ last

theorem NumText.ne_star {n : Nat} {cs : List Char} (h : NumText n cs) : cs ≠ ['*'] := by
  rintro rfl
  rcases h.mem List.mem_cons_self with hplus | hdigit
  · exact absurd hplus (by decide)
  · exact absurd hdigit (by decide)

/-- **What the parser computes.** -/
theorem parseContentRange_iff {value : String} {start last : Nat} {total : Option Nat} :
    parseContentRange value = .ok (start, last, total) ↔
      ∃ rangeAndTotal rangePart totalPart startS endS,
        Pieces value.toList start last total rangeAndTotal rangePart totalPart startS endS := by
  rcases hsplit : splitUnit (trim value.toList) with ⟨unit, rangeAndTotal⟩
  constructor
  · intro h
    unfold parseContentRange at h
    rw [hsplit] at h
    simp only at h
    split at h
    · exact absurd h invalidRange_ne
    · rename_i hunit
      obtain ⟨⟨rangePart, totalPart⟩, hslash, h⟩ := Except.bind_eq_ok.1 h
      obtain ⟨⟨startS, endS⟩, hdash, h⟩ := Except.bind_eq_ok.1 h
      obtain ⟨s, hs, h⟩ := Except.bind_eq_ok.1 h
      obtain ⟨e, he, h⟩ := Except.bind_eq_ok.1 h
      have hpieces {t : Option Nat} (horder : s ≤ e) (ht : TotalText t (trim totalPart)) :
          Pieces value.toList s e t rangeAndTotal rangePart totalPart startS endS := by
        rw [not_or, not_not] at hunit
        exact ⟨by rw [hsplit, hunit.1], orElse_ok invalidRange_ne hslash, orElse_ok invalidRange_ne hdash,
          parseU64_iff.1 (orElse_ok invalidRange_ne hs), parseU64_iff.1 (orElse_ok invalidRange_ne he), ht, horder⟩
      split at h
      · exact absurd h invalidRange_ne
      · rename_i horder
        split at h
        · rename_i hstar
          cases h
          exact ⟨_, _, _, _, _, hpieces (Nat.not_lt.1 horder) hstar⟩
        · obtain ⟨t, ht, h⟩ := Except.bind_eq_ok.1 h
          cases h
          exact ⟨_, _, _, _, _, hpieces (Nat.not_lt.1 horder) (parseU64_iff.1 (orElse_ok invalidRange_ne ht))⟩
  · rintro ⟨rangeAndTotal', rangePart, totalPart, startS, endS, hunit, hslash, hdash, hstart, hlast, htotal, horder⟩
    rw [hsplit] at hunit
    cases hunit
    have hne : rangeAndTotal ≠ [] := by
      rintro rfl
      cases hslash
    unfold parseContentRange
    rw [hsplit]
    simp only [ne_eq, not_true_eq_false, hne, or_self, if_false, hslash, hdash, orElse, bind, Except.bind,
      parseU64_iff.2 hstart, parseU64_iff.2 hlast, if_neg (Nat.not_lt.2 horder)]
    cases total with
    | none => exact if_pos htotal
    | some n =>
      rw [if_neg (NumText.ne_star htotal), parseU64_iff.2 htotal]
      rfl

/-! ## From the pieces to the grammar -/

theorem Padded.prepend {P : List Char → Prop} {w cs : List Char} (hw : Blanks w) (h : Padded P cs) :
    Padded P (w ++ cs) := by
  obtain ⟨before, field, after, rfl, hbefore, hafter, hfield⟩ := h
  exact ⟨w ++ before, field, after, by simp, hw.append hbefore, hafter, hfield⟩

theorem Padded.append {P : List Char → Prop} {w cs : List Char} (h : Padded P cs) (hw : Blanks w) :
    Padded P (cs ++ w) := by
  obtain ⟨before, field, after, rfl, hbefore, hafter, hfield⟩ := h
  exact ⟨before, field, after ++ w, by simp, hbefore, hafter.append hw, hfield⟩

/-- Blanks without a space are tabs. -/
theorem Blanks.tabs {w : List Char} (hw : Blanks w) (hspace : ' ' ∉ w) : Tabs w := by
  intro c hc
  rcases hw c hc with rfl | htab
  · exact absurd hc hspace
  · exact htab

theorem splitUnit_bytes {cs rangeAndTotal : List Char} (hne : rangeAndTotal ≠ [])
    (h : splitUnit cs = ("bytes".toList, rangeAndTotal)) :
    ∃ unit rest, cs = unit ++ ' ' :: rest ∧ ' ' ∉ unit ∧ trim unit = "bytes".toList ∧
      trim rest = rangeAndTotal := by
  unfold splitUnit at h
  split at h
  · rename_i unit rest hsplit
    obtain ⟨hcs, hspace⟩ := splitOnce_iff.1 hsplit
    rw [Prod.mk.injEq] at h
    exact ⟨unit, rest, hcs, hspace, h.1, h.2⟩
  · rw [Prod.mk.injEq] at h
    exact absurd h.2.symm hne

/-- **Soundness**: what is accepted has the form. -/
theorem Pieces.form {cs : List Char} {start last : Nat} {total : Option Nat}
    {rangeAndTotal rangePart totalPart startS endS : List Char} (htext : HeaderText cs)
    (h : Pieces cs start last total rangeAndTotal rangePart totalPart startS endS) :
    RangeForm cs start last total := by
  obtain ⟨hunit, hslash, hdash, hstart, hlast, htotal, horder⟩ := h
  obtain ⟨hrange, -⟩ := splitOnce_iff.1 hslash
  obtain ⟨hpart, -⟩ := splitOnce_iff.1 hdash
  have hne : rangeAndTotal ≠ [] := by
    rw [hrange]
    simp
  obtain ⟨unit, rest, hcs, hspace, hbytes, hrest⟩ := splitUnit_bytes hne hunit
  -- every piece is header text, so what was trimmed off it are blanks
  have hall : HeaderText (trim cs) := by
    obtain ⟨v, w, heq, -⟩ := htext.trim
    exact htext.mono fun c hc => by rw [heq]; simp [hc]
  rw [hcs] at hall
  have hallUnit : HeaderText unit := hall.mono fun c hc => by simp [hc]
  have hallRest : HeaderText rest := hall.mono fun c hc => by simp [hc]
  obtain ⟨v0, w0, hv0w0, hv0, hw0⟩ := htext.trim
  obtain ⟨v1, w1, hv1w1, hv1, hw1⟩ := hallUnit.trim
  obtain ⟨v2, w2, hv2w2, hv2, hw2⟩ := hallRest.trim
  rw [hrest, hrange] at hv2w2
  have hallPart : HeaderText rangePart := hallRest.mono fun c hc => by rw [hv2w2]; simp [hc]
  have hallTotal : HeaderText totalPart := hallRest.mono fun c hc => by rw [hv2w2]; simp [hc]
  obtain ⟨v3, w3, hv3w3, hv3, hw3⟩ := hallPart.trim
  rw [hpart] at hv3w3
  have hallStart : HeaderText startS := hallPart.mono fun c hc => by rw [hv3w3]; simp [hc]
  have hallEnd : HeaderText endS := hallPart.mono fun c hc => by rw [hv3w3]; simp [hc]
  have hpadStart : Padded (NumText start) startS := (Padded.iff_trim hallStart fun _ => NumText.solid).2 hstart
  have hpadEnd : Padded (NumText last) endS := (Padded.iff_trim hallEnd fun _ => NumText.solid).2 hlast
  have hpadTotal : Padded (TotalText total) totalPart :=
    (Padded.iff_trim hallTotal fun _ => TotalText.solid).2 htotal
  have htabs : Tabs w1 := hw1.tabs fun hmem => hspace (by rw [hv1w1]; simp [hmem])
  refine ⟨⟨v0 ++ unit, v2 ++ (v3 ++ startS), endS ++ w3, totalPart ++ (w2 ++ w0), ?_,
    ⟨v0 ++ v1, w1, ?_, hv0.append hv1, htabs⟩, (hpadStart.prepend hv3).prepend hv2, hpadEnd.append hw3,
    hpadTotal.append (hw2.append hw0)⟩, horder⟩
  · rw [hv0w0, hcs, hv2w2, hv3w3]
    simp
  · rw [hv1w1, hbytes]
    simp

/-! ## From the grammar to the pieces -/

theorem Blanks.notMem {w : List Char} {sep : Char} (hw : Blanks w) (hsep : isWhitespace sep = false) :
    sep ∉ w := by
  intro hmem
  rw [hw.white sep hmem] at hsep
  cases hsep

theorem NumText.notMem {n : Nat} {cs : List Char} {sep : Char} (h : NumText n cs) (hplus : sep ≠ '+')
    (hsep : isDigit sep = false) : sep ∉ cs := by
  intro hmem
  rcases h.mem hmem with heq | hdigit
  · exact hplus heq
  · rw [hdigit] at hsep
    cases hsep

theorem Blanks.nil : Blanks [] := fun _ hc => nomatch hc

theorem Solid.trim_before {cs w : List Char} (h : Solid cs) (hw : Blanks w) : SpottedCat.trim (cs ++ w) = cs := by
  have hcs := trim_blanks cs Blanks.nil hw
  rwa [List.nil_append, h.trim] at hcs

theorem Solid.trim_after {v cs : List Char} (h : Solid cs) (hv : Blanks v) : SpottedCat.trim (v ++ cs) = cs := by
  have hcs := trim_blanks cs hv Blanks.nil
  rwa [List.append_nil, h.trim] at hcs

/-- Text from one field to another, with blanks around it. -/
theorem trim_fields {v w front back : List Char} (cs : List Char) (hv : Blanks v) (hw : Blanks w) (hfront : Solid front)
    (hback : Solid back) : trim (v ++ (front ++ cs ++ back) ++ w) = front ++ cs ++ back := by
  rw [trim_blanks _ hv hw]
  exact trim_of_ends ⟨cs ++ back, by simp⟩ (List.suffix_append _ _) hfront hback

/-- **Completeness**: what has the form is cut into its fields. -/
theorem RangeForm.pieces {cs : List Char} {start last : Nat} {total : Option Nat}
    (h : RangeForm cs start last total) :
    ∃ rangeAndTotal rangePart totalPart startS endS,
      Pieces cs start last total rangeAndTotal rangePart totalPart startS endS := by
  obtain ⟨⟨_, _, _, _, rfl, ⟨v0, tabs, rfl, hv0, htabs⟩, ⟨v1, ns, w1, rfl, hv1, hw1, hstart⟩,
    ⟨v2, ne, w2, rfl, hv2, hw2, hlast⟩, ⟨v3, nt, w3, rfl, hv3, hw3, htotal⟩⟩, horder⟩ := h
  have hbytes : Solid "bytes".toList := bytes_ends
  have hns := hstart.solid
  have hne := hlast.solid
  have hnt := htotal.solid
  refine ⟨ns ++ (w1 ++ '-' :: (v2 ++ ne ++ w2 ++ '/' :: v3)) ++ nt, ns ++ w1 ++ '-' :: (v2 ++ ne ++ w2), v3 ++ nt,
    ns ++ w1, v2 ++ ne, ?_, ?_, ?_, ?_, ?_, ?_, horder⟩
  · have hvalue : trim (v0 ++ "bytes".toList ++ tabs ++ ' ' ::
        (v1 ++ ns ++ w1 ++ '-' :: (v2 ++ ne ++ w2 ++ '/' :: (v3 ++ nt ++ w3)))) =
        "bytes".toList ++ tabs ++ ' ' ::
          (v1 ++ (ns ++ (w1 ++ '-' :: (v2 ++ ne ++ w2 ++ '/' :: v3)) ++ nt)) := by
      have hfields := trim_fields (tabs ++ ' ' :: (v1 ++ ns ++ w1 ++ '-' :: (v2 ++ ne ++ w2 ++ '/' :: v3)))
        hv0 hw3 hbytes hnt
      simpa only [List.append_assoc, List.cons_append] using hfields
    have hunit : ' ' ∉ "bytes".toList ++ tabs := by
      rw [List.mem_append, not_or]
      exact ⟨by decide, fun hmem => absurd (htabs ' ' hmem) (by decide)⟩
    have hrest := trim_fields (w1 ++ '-' :: (v2 ++ ne ++ w2 ++ '/' :: v3)) hv1 Blanks.nil hns hnt
    rw [List.append_nil] at hrest
    rw [hvalue]
    unfold splitUnit
    rw [splitOnce_append _ hunit]
    simp only [hbytes.trim_before htabs.blanks, hrest]
  · have hslash : '/' ∉ ns ++ w1 ++ '-' :: (v2 ++ ne ++ w2) := by
      simp only [List.mem_append, List.mem_cons, not_or]
      exact ⟨⟨hstart.notMem (by decide) (by decide), hw1.notMem (by decide)⟩, by decide,
        ⟨hv2.notMem (by decide), hlast.notMem (by decide) (by decide)⟩, hw2.notMem (by decide)⟩
    have hcut := splitOnce_append (v3 ++ nt) hslash
    simpa only [List.append_assoc, List.cons_append] using hcut
  · have hdash : '-' ∉ ns ++ w1 := by
      rw [List.mem_append, not_or]
      exact ⟨hstart.notMem (by decide) (by decide), hw1.notMem (by decide)⟩
    have hfields := trim_fields (w1 ++ '-' :: v2) Blanks.nil hw2 hns hne
    have hcut := splitOnce_append (v2 ++ ne) hdash
    simp only [List.append_assoc, List.cons_append, List.nil_append] at hfields hcut ⊢
    rw [hfields, hcut]
  · rw [hns.trim_before hw1]
    exact hstart
  · rw [hne.trim_after hv2]
    exact hlast
  · rw [hnt.trim_after hv3]
    exact htotal

/-! ## Refusals and renderings -/

theorem orElse_error {α : Type*} {o : Option α} {msg : String} {e : Failure}
    (h : orElse o (invalidRange msg) = .error e) : e = .err (.fromCode .invalidRange msg) := by
  cases o with
  | some a => cases h
  | none => cases h; rfl

/-- Every text that is not accepted is refused with the same code. -/
theorem parseContentRange_error {value : String} {e : Failure} (h : parseContentRange value = .error e) :
    ∃ msg, e = .err (.fromCode .invalidRange msg) := by
  unfold parseContentRange at h
  simp only at h
  split at h
  · cases h
    exact ⟨_, rfl⟩
  · rcases Except.bind_eq_error.1 h with h | ⟨⟨rangePart, totalPart⟩, -, h⟩
    · exact ⟨_, orElse_error h⟩
    rcases Except.bind_eq_error.1 h with h | ⟨⟨startS, endS⟩, -, h⟩
    · exact ⟨_, orElse_error h⟩
    rcases Except.bind_eq_error.1 h with h | ⟨start, -, h⟩
    · exact ⟨_, orElse_error h⟩
    rcases Except.bind_eq_error.1 h with h | ⟨last, -, h⟩
    · exact ⟨_, orElse_error h⟩
    split at h
    · cases h
      exact ⟨_, rfl⟩
    split at h
    · cases h
    · rcases Except.bind_eq_error.1 h with h | ⟨total, -, h⟩
      · exact ⟨_, orElse_error h⟩
      · cases h

theorem RangeForm.parses {value : String} {start last : Nat} {total : Option Nat}
    (h : RangeForm value.toList start last total) : parseContentRange value = .ok (start, last, total) :=
  parseContentRange_iff.2 h.pieces

/-- `start-last/total`, after the unit. -/
def renderTotal : Option Nat → String
  | some total => s!"{total}"
  | none => "*"

def renderContentRange (start last : Nat) (total : Option Nat) : String :=
  s!"bytes {start}-{last}/{renderTotal total}"

theorem numText_digitsOf {n : Nat} (h : n < u64Max) : NumText n (digitsOf n) :=
  parseU64_iff.1 (parseU64_digitsOf h)

theorem Padded.bare {P : List Char → Prop} {cs : List Char} (h : P cs) : Padded P cs :=
  ⟨[], cs, [], by simp, Blanks.nil, Blanks.nil, h⟩

theorem totalText_render {total : Option Nat} (h : ∀ n, total = some n → n < u64Max) :
    TotalText total (renderTotal total).toList := by
  cases total with
  | none => rfl
  | some n =>
    have htext : (renderTotal (some n)).toList = digitsOf n := by
      simp [renderTotal, toString, Nat.toList_repr]
    rw [htext]
    exact numText_digitsOf (h n rfl)

theorem renderContentRange_form {start last : Nat} {total : Option Nat} (horder : start ≤ last)
    (hlast : last < u64Max) (htotal : ∀ n, total = some n → n < u64Max) :
    RangeForm (renderContentRange start last total).toList start last total := by
  refine ⟨⟨"bytes".toList, digitsOf start, digitsOf last, (renderTotal total).toList, ?_,
    ⟨[], [], by simp, Blanks.nil, fun _ hc => nomatch hc⟩, Padded.bare (numText_digitsOf (by omega)),
    Padded.bare (numText_digitsOf hlast), Padded.bare (totalText_render htotal)⟩, horder⟩
  simp [renderContentRange, toString, Nat.toList_repr]

/-- **A standard `Content-Range`** is read back. -/
theorem parseContentRange_standard {first last total : Nat} (horder : first ≤ last)
    (hlast : last < u64Max) (htotal : total < u64Max) :
    parseContentRange s!"bytes {first}-{last}/{total}" = .ok (first, last, some total) := by
  have hform : RangeForm (renderContentRange first last (some total)).toList first last (some total) :=
    renderContentRange_form horder hlast fun n hn => Option.some.inj hn ▸ htotal
  exact hform.parses

/-- **The grammar of `Content-Range`**, over the texts that a header can hold: what has the form is read as
its numbers, everything else is refused as an invalid range; and what is rendered is read back. -/
theorem content_range_grammar :
    (∀ value : String, HeaderText value.toList →
      (∀ start last total, parseContentRange value = .ok (start, last, total) ↔
        RangeForm value.toList start last total) ∧
      ((∀ start last total, ¬ RangeForm value.toList start last total) →
        ∃ msg, parseContentRange value = invalidRange msg)) ∧
    ∀ start last total, start ≤ last → last < u64Max → (∀ n, total = some n → n < u64Max) →
      parseContentRange (renderContentRange start last total) = .ok (start, last, total) := by
  refine ⟨fun value htext => ?_, fun start last total horder hlast htotal => ?_⟩
  · have hiff : ∀ start last total, parseContentRange value = .ok (start, last, total) ↔
        RangeForm value.toList start last total := by
      intro start last total
      constructor
      · intro h
        obtain ⟨_, _, _, _, _, hpieces⟩ := parseContentRange_iff.1 h
        exact hpieces.form htext
      · exact RangeForm.parses
    refine ⟨hiff, fun hnone => ?_⟩
    cases hparse : parseContentRange value with
    | ok numbers =>
      obtain ⟨start, last, total⟩ := numbers
      exact absurd ((hiff start last total).1 hparse) (hnone start last total)
    | error e =>
      obtain ⟨msg, rfl⟩ := parseContentRange_error hparse
      exact ⟨msg, rfl⟩
  · exact (renderContentRange_form horder hlast htotal).parses

theorem content_range_grammar_spaced :
    RangeForm " bytes\t  +10 -\t99 / 1000 ".toList 10 99 (some 1000) ∧
      parseContentRange (renderContentRange 0 1023 none) = .ok (0, 1023, none) := by
  have htext : HeaderText " bytes\t  +10 -\t99 / 1000 ".toList := by
    intro c hc
    have hall : (" bytes\t  +10 -\t99 / 1000 ".toList.all fun c =>
        c = '\t' ∨ 0x20 ≤ c.toNat ∧ c.toNat ≤ 0x7e) = true := by decide
    simpa using List.all_eq_true.1 hall c hc
  exact ⟨((content_range_grammar.1 _ htext).1 10 99 (some 1000)).1 (by decide),
    content_range_grammar.2 0 1023 none (by decide) (by decide) fun _ h => nomatch h⟩

end SpottedCat
