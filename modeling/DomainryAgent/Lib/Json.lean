import Mathlib.Data.List.Basic
import Mathlib.Tactic.Common

/-!
JSON texts, as Go's encoder writes them.

A reader of a text knows how many brackets are open and whether it is inside a
string.  A value is a text that leaves the reader as it was, and nowhere inside
comes to what ends a value (`IsValue`).  So a text of members can be taken apart
again (`unmarshal_object`): two objects with the same text have the same members.
-/

namespace DomainryAgent.Lib.Json

abbrev Text := List Char

/-! ### Reading -/

inductive Mark where
  | quote | backslash | opening | closing | separator | other
  deriving DecidableEq

/-- What a character is to the reader: a comma and a colon separate. -/
def mark (c : Char) : Mark :=
  if c.toNat = 0x22 then .quote
  else if c.toNat = 0x5c then .backslash
  else if c.toNat = 0x7b ∨ c.toNat = 0x5b then .opening
  else if c.toNat = 0x7d ∨ c.toNat = 0x5d then .closing
  else if c.toNat = 0x2c ∨ c.toNat = 0x3a then .separator
  else .other

inductive Mode where
  | plain | string | escaped
  deriving DecidableEq

/-- The reader after a character; a value that is not inside brackets ends before
a separator and before a bracket that closes another. -/
def step : Nat × Mode → Char → Option (Nat × Mode)
  | (depth, .escaped), _ => some (depth, .string)
  | (depth, .string), c =>
    match mark c with
    | .quote => some (depth, .plain)
    | .backslash => some (depth, .escaped)
    | _ => some (depth, .string)
  | (depth, .plain), c =>
    match mark c, depth with
    | .quote, _ => some (depth, .string)
    | .opening, _ => some (depth + 1, .plain)
    | .closing, 0 => none
    | .closing, d + 1 => some (d, .plain)
    | .separator, 0 => none
    | _, _ => some (depth, .plain)

def run : Nat × Mode → Text → Option (Nat × Mode)
  | s, [] => some s
  | s, c :: rest => (step s c).bind (run · rest)

/-- What the reader takes in one value, and the rest. -/
def split : Nat × Mode → Text → Text × Text
  | _, [] => ([], [])
  | s, c :: rest =>
    match step s c with
    | none => ([], c :: rest)
    | some t => (c :: (split t rest).1, (split t rest).2)

def IsValue (text : Text) : Prop := run (0, .plain) text = some (0, .plain)

instance (text : Text) : Decidable (IsValue text) := inferInstanceAs (Decidable (_ = _))

/-- Before `rest` a value ends. -/
def Ends (rest : Text) : Prop := ∀ c ∈ rest.head?, step (0, .plain) c = none

variable {s t : Nat × Mode} {text rest : Text} {c : Char}

theorem run_append (s : Nat × Mode) (text rest : Text) :
    run s (text ++ rest) = (run s text).bind (run · rest) := by
  induction text generalizing s with
  | nil => rfl
  | cons c text ih =>
    simp only [List.cons_append, run, Option.bind_assoc]
    cases step s c with
    | none => rfl
    | some t => exact ih t

/-- The value in front of a text is found. -/
theorem split_append (value : run s text = some (0, .plain)) (ends : Ends rest) :
    split s (text ++ rest) = (text, rest) := by
  induction text generalizing s with
  | nil =>
    cases value
    cases rest with
    | nil => rfl
    | cons c rest => simp [split, ends c rfl]
  | cons c text ih =>
    obtain ⟨t, next, value⟩ := Option.bind_eq_some_iff.mp value
    simp [split, next, ih value]

/-- More open brackets do not matter. -/
theorem step_deeper {a b : Nat} {m n : Mode} (k : Nat) (taken : step (a, m) c = some (b, n)) :
    step (a + k, m) c = some (b + k, n) := by
  cases m with
  | escaped => cases taken; rfl
  | string =>
    simp only [step] at taken ⊢
    split at taken <;> cases taken <;> rfl
  | plain =>
    cases is : mark c with
    | closing | separator =>
      cases a with
      | zero => simp [step, is] at taken
      | succ a =>
        simp only [step, is, Option.some.injEq, Prod.mk.injEq] at taken
        obtain ⟨rfl, rfl⟩ := taken
        simp [step, is, Nat.succ_add]
    | opening =>
      simp only [step, is, Option.some.injEq, Prod.mk.injEq] at taken
      obtain ⟨rfl, rfl⟩ := taken
      simp [step, is, Nat.add_right_comm]
    | quote | backslash | other =>
      simp only [step, is, Option.some.injEq, Prod.mk.injEq] at taken
      obtain ⟨rfl, rfl⟩ := taken
      simp [step, is]

theorem run_deeper {a b : Nat} {m n : Mode} (k : Nat) (taken : run (a, m) text = some (b, n)) :
    run (a + k, m) text = some (b + k, n) := by
  induction text generalizing a m with
  | nil => cases taken; rfl
  | cons c text ih =>
    obtain ⟨⟨d, o⟩, next, taken⟩ := Option.bind_eq_some_iff.mp taken
    simp [run, step_deeper k next, ih taken]

/-! ### Strings -/

def hexDigit (n : Nat) : Char := if n < 10 then Char.ofNat (0x30 + n) else Char.ofNat (0x57 + n)

/-- A backslash and what follows it. -/
def escape (text : Text) : Text := Char.ofNat 0x5c :: text

/-- The escape of a character by its code. -/
def unicode (c : Char) : Text :=
  escape (Char.ofNat 0x75 :: [c.toNat / 4096, c.toNat / 256 % 16, c.toNat / 16 % 16, c.toNat % 16].map
    hexDigit)

/-- The characters that are escaped for the sake of a page the text may stand in. -/
def unsafeInPage (c : Char) : Bool :=
  c.toNat = 0x3c || c.toNat = 0x3e || c.toNat = 0x26 || c.toNat = 0x2028 || c.toNat = 0x2029

/-- A character of a string. -/
def escaped (c : Char) : Text :=
  if mark c = .quote ∨ mark c = .backslash then escape [c]
  else if c.toNat = 0x08 then escape ['b']
  else if c.toNat = 0x0c then escape ['f']
  else if c.toNat = 0x0a then escape ['n']
  else if c.toNat = 0x0d then escape ['r']
  else if c.toNat = 0x09 then escape ['t']
  else if c.toNat < 0x20 ∨ unsafeInPage c = true then unicode c
  else [c]

def quotes (text : Text) : Text := Char.ofNat 0x22 :: (text ++ [Char.ofNat 0x22])

def quote (value : String) : Text := quotes (value.toList.flatMap escaped)

theorem step_string (depth : Nat) (plain : mark c ≠ .quote ∧ mark c ≠ .backslash) :
    step (depth, .string) c = some (depth, .string) := by
  simp only [step]
  split
  · next is => exact absurd is plain.1
  · next is => exact absurd is plain.2
  · rfl

theorem run_escape (depth : Nat) (c : Char) (text : Text) :
    run (depth, .string) (escape (c :: text)) = run (depth, .string) text := rfl

theorem mark_hexDigit {n : Nat} (digit : n < 16) : mark (hexDigit n) = .other := by
  revert n
  decide

theorem run_hexDigits (depth : Nat) {digits : List Nat} (small : ∀ n ∈ digits, n < 16) :
    run (depth, .string) (digits.map hexDigit) = some (depth, .string) := by
  induction digits with
  | nil => rfl
  | cons n digits ih =>
    have other := mark_hexDigit (small n List.mem_cons_self)
    simp [run, step_string depth (c := hexDigit n) (by simp [other]),
      ih fun m member => small m (List.mem_cons_of_mem _ member)]

theorem run_unicode (depth : Nat) (low : c.toNat < 0x10000) :
    run (depth, .string) (unicode c) = some (depth, .string) := by
  rw [unicode, run_escape]
  refine run_hexDigits depth fun n member => ?_
  simp only [List.mem_cons, List.not_mem_nil, or_false] at member
  omega

theorem run_escaped (depth : Nat) (c : Char) :
    run (depth, .string) (escaped c) = some (depth, .string) := by
  unfold escaped
  split
  · rfl
  next plain =>
  iterate 5
    split
    · rfl
  split
  · next rare =>
    refine run_unicode depth ?_
    simp only [unsafeInPage, Bool.or_eq_true, decide_eq_true_eq] at rare
    omega
  · simp [run, step_string depth (not_or.mp plain)]

theorem run_string (depth : Nat) (value : List Char) :
    run (depth, .string) (value.flatMap escaped) = some (depth, .string) := by
  induction value with
  | nil => rfl
  | cons c value ih => simp [run_append, run_escaped, ih]

theorem isValue_quote (value : String) : IsValue (quote value) := by
  have inside : run (0, .string) (value.toList.flatMap escaped ++ [Char.ofNat 0x22]) = _ :=
    run_append ..
  rw [run_string] at inside
  exact inside

/-! ### Numbers and literals -/

/-- A text of no mark is a value. -/
theorem isValue_of_other (plain : ∀ c ∈ text, mark c = .other) : IsValue text := by
  unfold IsValue
  induction text with
  | nil => rfl
  | cons c text ih =>
    obtain ⟨first, rest⟩ := List.forall_mem_cons.mp plain
    simp [run, step, first, ih rest]

def null : Text := ['n', 'u', 'l', 'l']

theorem isValue_null : IsValue null := rfl

def number (n : Nat) : Text := Nat.toDigits 10 n

theorem isValue_number (n : Nat) : IsValue (number n) := by
  refine isValue_of_other fun c member => ?_
  have digit := Nat.isDigit_of_mem_toDigits (by decide) (by decide) member
  simp only [Char.isDigit, Bool.and_eq_true, decide_eq_true_eq] at digit
  have low : 0x30 ≤ c.toNat := digit.1
  have high : c.toNat ≤ 0x39 := digit.2
  unfold mark
  repeat' split
  all_goals first | rfl | omega

/-! ### Arrays and objects -/

/-- Parts between brackets. -/
def enclosed (first last : Char) (parts : List Text) : Text :=
  first :: ([Char.ofNat 0x2c].intercalate parts ++ [last])

def array (items : List Text) : Text := enclosed (Char.ofNat 0x5b) (Char.ofNat 0x5d) items

/-- A member: its quoted key and its value. -/
abbrev Member := Text × Text

def Member.written (m : Member) : Text := m.1 ++ Char.ofNat 0x3a :: m.2

def object (members : List Member) : Text :=
  enclosed (Char.ofNat 0x7b) (Char.ofNat 0x7d) (members.map Member.written)

theorem run_parts {parts : List Text}
    (inside : ∀ part ∈ parts, run (1, .plain) part = some (1, .plain)) :
    run (1, .plain) ([Char.ofNat 0x2c].intercalate parts) = some (1, .plain) := by
  induction parts with
  | nil => rfl
  | cons part parts ih =>
    obtain ⟨first, others⟩ := List.forall_mem_cons.mp inside
    cases parts with
    | nil => simpa using first
    | cons next parts =>
      rw [List.intercalate_cons_cons, run_append, run_append, first]
      exact ih others

theorem isValue_array {items : List Text} (values : ∀ item ∈ items, IsValue item) :
    IsValue (array items) := by
  have inside := run_parts fun item member => run_deeper 1 (values item member)
  have whole : run (0, .plain) (array items) = (run (1, .plain) _).bind (run · [Char.ofNat 0x5d]) :=
    run_append ..
  rw [inside] at whole
  exact whole

theorem isValue_object {members : List Member}
    (values : ∀ m ∈ members, IsValue m.1 ∧ IsValue m.2) : IsValue (object members) := by
  have inside : ∀ part ∈ members.map Member.written,
      run (1, .plain) part = some (1, .plain) := by
    intro part member
    obtain ⟨m, there, rfl⟩ := List.mem_map.mp member
    have key := run_deeper 1 (values m there).1
    have value := run_deeper 1 (values m there).2
    rw [Member.written, run_append, key]
    exact value
  have whole : run (0, .plain) (object members) =
      (run (1, .plain) _).bind (run · [Char.ofNat 0x7d]) := run_append ..
  rw [run_parts inside] at whole
  exact whole

/-! ### Taking an object apart -/

/-- Members up to the bracket that closes them. -/
def readMembers : Nat → Text → Option (List Member)
  | 0, _ => none
  | fuel + 1, text =>
    match (split (0, .plain) text).2 with
    | [] => none
    | _ :: rest =>
      let key := (split (0, .plain) text).1
      match (split (0, .plain) rest).2 with
      | [] => none
      | c :: others =>
        let member := (key, (split (0, .plain) rest).1)
        if mark c = .closing then some [member]
        else (readMembers fuel others).map (member :: ·)

def unmarshal : Text → Option (List Member)
  | _ :: rest => if rest = [Char.ofNat 0x7d] then some [] else readMembers rest.length rest
  | [] => none

theorem readMembers_text {members : List Member} (some : members ≠ [])
    (values : ∀ m ∈ members, IsValue m.1 ∧ IsValue m.2) {fuel : Nat}
    (enough : members.length ≤ fuel) :
    readMembers fuel ([Char.ofNat 0x2c].intercalate (members.map Member.written) ++
      [Char.ofNat 0x7d]) = .some members := by
  induction members generalizing fuel with
  | nil => exact absurd rfl some
  | cons m members ih =>
    obtain ⟨fuel, rfl⟩ : ∃ k, fuel = k + 1 := ⟨fuel - 1, by simp at enough; omega⟩
    obtain ⟨first, others⟩ := List.forall_mem_cons.mp values
    have colon (rest : Text) : Ends (Char.ofNat 0x3a :: rest) := by rintro c ⟨⟩; rfl
    cases members with
    | nil =>
      have text : [Char.ofNat 0x2c].intercalate ([m].map Member.written) ++ [Char.ofNat 0x7d] =
          m.1 ++ Char.ofNat 0x3a :: (m.2 ++ [Char.ofNat 0x7d]) := by simp [Member.written]
      have ends : Ends [Char.ofNat 0x7d] := by rintro c ⟨⟩; rfl
      simp only [text, readMembers, split_append first.1 (colon _), split_append first.2 ends]
      rfl
    | cons next members =>
      have text : [Char.ofNat 0x2c].intercalate ((m :: next :: members).map Member.written) ++
          [Char.ofNat 0x7d] = m.1 ++ Char.ofNat 0x3a :: (m.2 ++ Char.ofNat 0x2c ::
            ([Char.ofNat 0x2c].intercalate ((next :: members).map Member.written) ++
              [Char.ofNat 0x7d])) := by
        simp [Member.written, List.intercalate_cons_cons]
      have ends (rest : Text) : Ends (Char.ofNat 0x2c :: rest) := by rintro c ⟨⟩; rfl
      simp only [text, readMembers, split_append first.1 (colon _), split_append first.2 (ends _)]
      rw [if_neg (by decide), ih (by simp) others (by simpa using enough)]
      rfl

theorem length_intercalate {parts : List Text} (nonempty : ∀ part ∈ parts, 1 ≤ part.length) :
    parts.length ≤ ([Char.ofNat 0x2c].intercalate parts).length := by
  induction parts with
  | nil => simp
  | cons part parts ih =>
    obtain ⟨first, others⟩ := List.forall_mem_cons.mp nonempty
    cases parts with
    | nil => simpa using first
    | cons next parts =>
      have rest := ih others
      rw [List.intercalate_cons_cons]
      simp only [List.length_append, List.length_cons] at rest ⊢
      omega

/-- An object is read back as its members. -/
theorem unmarshal_object {members : List Member}
    (values : ∀ m ∈ members, IsValue m.1 ∧ IsValue m.2) :
    unmarshal (object members) = some members := by
  cases members with
  | nil => rfl
  | cons m members =>
    have long : (m :: members).length < ([Char.ofNat 0x2c].intercalate
        ((m :: members).map Member.written) ++ [Char.ofNat 0x7d]).length := by
      have written : ∀ part ∈ (m :: members).map Member.written, 1 ≤ part.length := by
        intro part member
        obtain ⟨m, _, rfl⟩ := List.mem_map.mp member
        simp only [Member.written, List.length_append, List.length_cons]
        omega
      have all := length_intercalate written
      simp only [List.length_map, List.length_append, List.length_singleton] at all ⊢
      omega
    have more : [Char.ofNat 0x2c].intercalate ((m :: members).map Member.written) ++
        [Char.ofNat 0x7d] ≠ [Char.ofNat 0x7d] := by
      intro same
      rw [same] at long
      simp at long
    rw [object, enclosed, unmarshal, if_neg more]
    exact readMembers_text (by simp) values (Nat.le_of_lt long)

/-! ### Raw messages -/

/-- The character is left out between the parts of a text. -/
def blank (c : Char) : Bool :=
  c.toNat = 0x20 || c.toNat = 0x09 || c.toNat = 0x0a || c.toNat = 0x0d

/-- A text as it is written into another one: without blanks outside of strings,
and safe in a page. -/
def compact : Mode → Text → Text
  | _, [] => []
  | mode, c :: rest =>
    if mode = .plain ∧ blank c = true then compact mode rest
    else (if unsafeInPage c then unicode c else [c]) ++
      compact (((step (1, mode) c).map Prod.snd).getD mode) rest

/-- `json.RawMessage`: a text that ends where a value does; every text of a value is
one. -/
structure RawMessage where
  text : Text
  value : IsValue (compact .plain text)
  deriving DecidableEq

/-- The text of a raw message in another one. -/
def RawMessage.json (raw : RawMessage) : Text := compact .plain raw.text

end DomainryAgent.Lib.Json
