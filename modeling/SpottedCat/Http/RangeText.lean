import SpottedCat.Http.ContentRange

/-!
# Ranges as text

The decimal numbers in a header are read back as they were written:

* `rangeSpec_ok`: the `Range` header asks for one window, which ends before the total;
* `parseRangeSpec_windowSpec`: a server can read the window off that header.
-/

namespace SpottedCat

/-- The decimal text of a number. -/
abbrev digitsOf (n : Nat) : List Char := Nat.toDigits 10 n

/-! ## Digits among other characters -/

theorem isDigit_of_mem {n : Nat} {c : Char} (h : c ∈ digitsOf n) : isDigit c = true :=
  Nat.isDigit_of_mem_toDigits (by decide) (by decide) h

theorem isWhitespace_digit {c : Char} (h : isDigit c = true) : isWhitespace c = false := by
  simp only [isDigit, Bool.and_eq_true, decide_eq_true_eq, UInt32.le_iff_toNat_le,
    UInt32.reduceToNat] at h
  simp only [isWhitespace, Bool.or_eq_false_iff, Bool.and_eq_false_iff, decide_eq_false_iff_not,
    ← UInt32.toNat_inj, UInt32.le_iff_toNat_le, UInt32.reduceToNat]
  omega

theorem notMem_digitsOf {n : Nat} {sep : Char} (hsep : isDigit sep = false) : sep ∉ digitsOf n := by
  intro hmem
  rw [isDigit_of_mem hmem] at hsep
  cases hsep

theorem parseU64_digitsOf {n : Nat} (h : n < u64Max) : parseU64 (digitsOf n) = some n := by
  have hvalue : digitsValue (digitsOf n) = n := Nat.ofDigitChars_ten_toDigits
  have hall : (digitsOf n).all isDigit := List.all_eq_true.2 fun c hc => isDigit_of_mem hc
  -- a number begins with a digit, so there is no sign to strip
  have hplus : stripPlus (digitsOf n) = digitsOf n := by
    unfold stripPlus
    split
    · rename_i rest heq
      have hsign : '+' ∉ digitsOf n := notMem_digitsOf (by decide)
      exact absurd (heq ▸ List.mem_cons_self) hsign
    · rfl
  unfold parseU64
  simp only [hplus, hvalue]
  exact if_pos ⟨Nat.toDigits_ne_nil, hall, h⟩

/-! ## `trim` and `split_once` -/

/-- Text whose first character is no blank. -/
theorem dropWhile_of_front {front cs : List Char} (h : front <+: cs) (hne : front ≠ [])
    (hfront : ∀ c ∈ front, isWhitespace c = false) : cs.dropWhile isWhitespace = cs := by
  obtain ⟨rest, rfl⟩ := h
  cases front with
  | nil => exact absurd rfl hne
  | cons c front => exact List.dropWhile_cons_of_neg (by simp [hfront c List.mem_cons_self])

theorem trim_of_ends {front back cs : List Char} (hbegins : front <+: cs) (hends : back <:+ cs)
    (hfront : front ≠ [] ∧ ∀ c ∈ front, isWhitespace c = false)
    (hback : back ≠ [] ∧ ∀ c ∈ back, isWhitespace c = false) : trim cs = cs := by
  have hreverse : back.reverse <+: cs.reverse := List.reverse_prefix.2 hends
  unfold trim
  rw [dropWhile_of_front hbegins hfront.1 hfront.2, dropWhile_of_front hreverse, List.reverse_reverse]
  · exact fun h => hback.1 (List.reverse_eq_nil_iff.1 h)
  · exact fun c hc => hback.2 c (List.mem_reverse.1 hc)

theorem splitOnce_append {sep : Char} {before : List Char} (after : List Char) (h : sep ∉ before) :
    splitOnce sep (before ++ sep :: after) = some (before, after) := by
  induction before with
  | nil => simp [splitOnce]
  | cons c before ih =>
    rw [List.mem_cons, not_or] at h
    simp [splitOnce, Ne.symm h.1, ih h.2]

/-! ## Windows -/

/-- `first-last` -/
def windowText (first last : Nat) : List Char := digitsOf first ++ '-' :: digitsOf last

theorem splitOnce_windowText (first last : Nat) :
    splitOnce '-' (windowText first last) = some (digitsOf first, digitsOf last) :=
  splitOnce_append _ (notMem_digitsOf (by decide))

theorem bytes_ends : "bytes".toList ≠ [] ∧ ∀ c ∈ "bytes".toList, isWhitespace c = false := by
  refine ⟨by decide, fun c hc => ?_⟩
  have hletters : ("bytes".toList.all fun c => !isWhitespace c) = true := by decide
  simpa using List.all_eq_true.1 hletters c hc

/-! ## The `Range` header -/

/-- The header that asks for `[first, last]`. -/
def windowSpec (first last : Nat) : String := s!"bytes={first}-{last}"

/-- **What a chunk asks for**, where the sum stays in `u64`. -/
theorem rangeSpec_ok {build : Build} {start chunkSize total : Nat} (hchunk : 1 ≤ chunkSize)
    (hsum : start + chunkSize < u64Max) (htotal : 0 < total) :
    rangeSpec build start chunkSize total = .ok (windowSpec start (min (start + chunkSize) total - 1)) := by
  have hsub : u64Sub build (start + chunkSize) 1 = .ok (start + chunkSize - 1) := if_pos (by omega)
  have hmin : min (start + chunkSize - 1) (total - 1) = min (start + chunkSize) total - 1 := by omega
  unfold rangeSpec
  rw [if_neg (by omega), u64Add_of_lt hsum]
  simp only [bind, Except.bind, hsub, hmin]
  rfl

/-- A sum that leaves `u64` stops a debug build. -/
theorem rangeSpec_overflow {start chunkSize total : Nat} (hsum : u64Max ≤ start + chunkSize)
    (htotal : 0 < total) :
    rangeSpec .debug start chunkSize total = .error (.panic "attempt to add with overflow") := by
  have hadd : u64Add .debug start chunkSize = .error (.panic "attempt to add with overflow") :=
    if_neg (by omega)
  unfold rangeSpec
  rw [if_neg (by omega), hadd]
  rfl

/-- The first and last byte that a `Range` header asks for, as a server reads it. -/
def parseRangeSpec (spec : String) : Option (Nat × Nat) := do
  let (_, window) ← splitOnce '=' spec.toList
  let (first, last) ← splitOnce '-' window
  return (← parseU64 first, ← parseU64 last)

theorem parseRangeSpec_windowSpec {first last : Nat} (hfirst : first < u64Max) (hlast : last < u64Max) :
    parseRangeSpec (windowSpec first last) = some (first, last) := by
  have htext : (windowSpec first last).toList = "bytes".toList ++ '=' :: windowText first last := by
    simp [windowSpec, toString, Nat.toList_repr, windowText]
  unfold parseRangeSpec
  rw [htext, splitOnce_append _ (by decide)]
  simp [splitOnce_windowText, parseU64_digitsOf hfirst, parseU64_digitsOf hlast]

end SpottedCat
