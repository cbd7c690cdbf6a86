import SpottedCat.Data.Error

/-!
# u64 arithmetic, range requests and `Content-Range` (`default_http_client.rs:385-459`)

A `u64` is a `Nat`; an operation that leaves the range panics in a debug build and wraps in a release
build. Header values are read character by character.

| here | there |
| --- | --- |
| `trim`, `splitOnce`, `parseU64` | `str::trim`, `str::split_once`, `str::parse::<u64>` |
| `rangeSpec`                     | `range_spec` (:385) |
| `parseContentRange`             | `parse_content_range` (:393) |
-/

namespace SpottedCat

inductive Build where
  | debug
  | release
deriving DecidableEq, Repr

/-- One more than `u64::MAX`. -/
def u64Max : Nat := UInt64.size

def u64Add (build : Build) (a b : Nat) : Ret Nat :=
  if a + b < u64Max then .ok (a + b)
  else match build with
    | .debug => .error (.panic "attempt to add with overflow")
    | .release => .ok ((a + b) % u64Max)

theorem u64Add_of_lt {build : Build} {a b : Nat} (h : a + b < u64Max) : u64Add build a b = .ok (a + b) :=
  if_pos h

theorem u64Add_ok {build : Build} {a b n : Nat} (h : u64Add build a b = .ok n) : n = (a + b) % u64Max := by
  unfold u64Add at h
  split at h
  · rename_i hlt
    cases h
    rw [Nat.mod_eq_of_lt hlt]
  · cases build with
    | debug => cases h
    | release => cases h; rfl

def u64Sub (build : Build) (a b : Nat) : Ret Nat :=
  if b ≤ a then .ok (a - b)
  else match build with
    | .debug => .error (.panic "attempt to subtract with overflow")
    | .release => .ok ((u64Max + a - b) % u64Max)

/-- default_http_client.rs:385 -/
def rangeSpec (build : Build) (start chunkSize total : Nat) : Ret String :=
  if total = 0 then .ok s!"bytes={start}-"
  else do
    let next ← u64Add build start chunkSize
    let last ← u64Sub build next 1
    return s!"bytes={start}-{min last (total - 1)}"

/-! ## Strings -/

/-- `char::is_whitespace`: the Unicode property White_Space. -/
def isWhitespace (c : Char) : Bool :=
  c.val = 0x20 || (0x9 ≤ c.val && c.val ≤ 0xd) || c.val = 0x85 || c.val = 0xa0 || c.val = 0x1680 ||
    (0x2000 ≤ c.val && c.val ≤ 0x200a) || c.val = 0x2028 || c.val = 0x2029 || c.val = 0x202f ||
    c.val = 0x205f || c.val = 0x3000

def trim (cs : List Char) : List Char :=
  ((cs.dropWhile isWhitespace).reverse.dropWhile isWhitespace).reverse

/-- Before and after the first `sep`. -/
def splitOnce (sep : Char) : List Char → Option (List Char × List Char)
  | [] => none
  | c :: cs =>
    if c = sep then some ([], cs)
    else (splitOnce sep cs).map fun (before, after) => (c :: before, after)

def isDigit (c : Char) : Bool := 0x30 ≤ c.val && c.val ≤ 0x39

/-- The value of decimal digits. -/
def digitsValue (cs : List Char) : Nat :=
  cs.foldl (fun n c => 10 * n + (c.val.toNat - 0x30)) 0

def stripPlus : List Char → List Char
  | '+' :: rest => rest
  | cs => cs

/-- An optional `+`, then at least one digit and no other character, in range. -/
def parseU64 (cs : List Char) : Option Nat :=
  let digits := stripPlus cs
  if digits ≠ [] ∧ digits.all isDigit ∧ digitsValue digits < u64Max then some (digitsValue digits)
  else none

theorem parseU64_lt {cs : List Char} {n : Nat} (h : parseU64 cs = some n) : n < u64Max := by
  simp only [parseU64] at h
  split at h
  · rename_i hd
    cases h
    exact hd.2.2
  · cases h

/-! ## `Content-Range` -/

def invalidRange {α : Type*} (msg : String) : Ret α := failWith .invalidRange msg

/-- The value of an option, or the failure. -/
def orElse {α : Type*} (o : Option α) (failure : Ret α) : Ret α :=
  match o with
  | some a => .ok a
  | none => failure

theorem orElse_ok {α : Type*} {o : Option α} {failure : Ret α} {a : α} (hf : failure ≠ .ok a)
    (h : orElse o failure = .ok a) : o = some a := by
  cases o with
  | some b => cases h; rfl
  | none => exact absurd h hf

theorem invalidRange_ne {α : Type*} {msg : String} {a : α} : (invalidRange msg : Ret α) ≠ .ok a := by
  simp [invalidRange, failWith]

/-- default_http_client.rs:395-397 -/
def splitUnit (s : List Char) : List Char × List Char :=
  match splitOnce ' ' s with
  | some (first, second) => (trim first, trim second)
  | none => (trim s, [])

/-- default_http_client.rs:393: start, end and total of `bytes start-end/total`, the total `none` for
`*`. -/
def parseContentRange (value : String) : Ret (Nat × Nat × Option Nat) := do
  let (unit, rangeAndTotal) := splitUnit (trim value.toList)
  if unit ≠ "bytes".toList ∨ rangeAndTotal = [] then
    invalidRange s!"invalid content-range: {value}"
  else
    let (rangePart, totalPart) ←
      orElse (splitOnce '/' rangeAndTotal) (invalidRange s!"invalid content-range: {value}")
    let (startS, endS) ←
      orElse (splitOnce '-' (trim rangePart)) (invalidRange s!"invalid content-range range: {value}")
    let start ←
      orElse (parseU64 (trim startS)) (invalidRange s!"invalid content-range start: {value}")
    let last ← orElse (parseU64 (trim endS)) (invalidRange s!"invalid content-range end: {value}")
    if last < start then invalidRange s!"invalid content-range order: {value}"
    else if trim totalPart = ['*'] then return (start, last, none)
    else
      let total ←
        orElse (parseU64 (trim totalPart)) (invalidRange s!"invalid content-range total: {value}")
      return (start, last, some total)

/-- default_http_client.rs:744-760, :762-766 -/
example : parseContentRange "bytes 10-99/1000" = .ok (10, 99, some 1000) ∧
    parseContentRange "bytes 0-1023/*" = .ok (0, 1023, none) ∧
    parseContentRange "bytes 100-1/1000" =
      invalidRange "invalid content-range order: bytes 100-1/1000" := by decide

end SpottedCat
