import DomainryAgent.Lib.Json
import DomainryAgent.Lib.Measure

/-!
The size a step request records of itself.

Before a step its request is given the bytes it takes, how much of the limit that
is, and, if it was compacted, the bytes that are left.  All three stand in the
request, so each changes what is measured; the request is measured again until
nothing changes.  The functions are those of
`application/conversation_execution_context.go`.
-/

namespace DomainryAgent.ContextSize

open Lib Json Lengths

/-! ### Requests -/

def written (text : String) : Text := text.toList

/-- `ConversationContextWindow`. -/
structure ContextWindow where
  limitBytes : Nat
  inputBytes : Nat
  pressurePermille : Nat
  providerSerialized : Bool
  deriving DecidableEq

/-- The window as a member of a request; others follow it. -/
def ContextWindow.json (w : ContextWindow) : Text :=
  written "\"context_window\":\x7b\"limit_bytes\":" ++ number w.limitBytes ++
  written ",\"input_bytes\":" ++ number w.inputBytes ++
  written ",\"pressure_permille\":" ++ number w.pressurePermille ++
  written (if w.providerSerialized then ",\"provider_serialized\":true\x7d,"
    else ",\"provider_serialized\":false\x7d,")

/-- `ConversationContextCompaction`: the text of what is written before, and the
last field. -/
structure ContextCompaction where
  before : Text
  afterBytes : Nat
  deriving DecidableEq

def ContextCompaction.json (c : ContextCompaction) : Text :=
  c.before ++ written "\"after_bytes\":" ++ number c.afterBytes ++ written "\x7d"

/-- `ConversationStepRequest`: the texts of the fields before the window and after
it, which the measuring does not touch. -/
structure StepRequest where
  head : Text
  window : Option ContextWindow
  body : Text
  compaction : Option ContextCompaction
  deriving DecidableEq

def StepRequest.json (x : StepRequest) : Text :=
  x.head ++ x.window.elim [] ContextWindow.json ++ x.body ++
    x.compaction.elim [] ContextCompaction.json ++ written "\x7d"

/-- `len`, of the bytes of a text. -/
def bytes (text : Text) : Nat := (text.map Char.utf8Size).sum

/-! ### Measuring -/

/-- `ConversationStepInputSizer`; an error is its code. -/
abbrev Sizer := StepRequest → Except String Nat

/-- `conversationStepInputMeasurement`: the bytes, and whether the model counted them. -/
def conversationStepInputMeasurement (sizer : Option Sizer) (x : StepRequest) :
    Except String (Nat × Bool) :=
  match sizer with
  | some meter => do
    let size ← meter x
    if size < 1 then .error "model_context_size_invalid" else .ok (size, true)
  | none => .ok (bytes x.json, false)

def pressure (limit size : Nat) : Nat := min 1000 (size * 1000 / max 1 limit)

/-- The window a size is recorded in. -/
def contextWindow (limit size : Nat) (counted : Bool) : ContextWindow :=
  ⟨limit, size, pressure limit size, counted⟩

/-- A round: the window, and then the size of the request that has it. -/
def StepRequest.noted (x : StepRequest) (window : ContextWindow) : StepRequest :=
  { x with
    window := some window
    compaction := x.compaction.map fun c =>
      { c with afterBytes := bytes { x with window := some window }.json } }

def settleContext (sizer : Option Sizer) (limit : Nat) :
    Nat → StepRequest → Except String StepRequest
  | 0, _ => .error "model_context_size_invalid"
  | n + 1, x => do
    let (size, counted) ← conversationStepInputMeasurement sizer x
    let next := x.noted (contextWindow limit size counted)
    if next = x then .ok x else settleContext sizer limit n next

/-- `finalizeConversationStepContext`, of a request whose hashes are up to date. -/
def finalizeConversationStepContext (sizer : Option Sizer) (x : StepRequest) (limit : Nat) :
    Except String StepRequest :=
  settleContext sizer limit 16 x

/-! ### Lengths -/

@[simp] theorem bytes_nil : bytes [] = 0 := rfl

@[simp] theorem bytes_append (text text' : Text) :
    bytes (text ++ text') = bytes text + bytes text' := by
  simp [bytes]

/-- The digits of a number. -/
abbrev digits (n : Nat) : Nat := (Nat.toDigits 10 n).length

theorem bytes_number (n : Nat) : bytes (number n) = digits n := by
  have each : ∀ c ∈ Nat.toDigits 10 n, c.utf8Size = 1 := by
    intro c member
    have digit := Nat.isDigit_of_mem_toDigits (by decide) (by decide) member
    simp only [Char.isDigit, Bool.and_eq_true, decide_eq_true_eq] at digit
    have high : c.toNat ≤ 0x39 := digit.2
    exact Char.utf8Size_eq_one_iff.mpr (UInt32.le_iff_toNat_le.mpr (high.trans (by decide)))
  rw [bytes, number, List.map_congr_left each]
  simp

theorem digits_le_iff {n d : Nat} : digits n ≤ d + 1 ↔ n < 10 ^ (d + 1) :=
  Nat.length_toDigits_le_iff (by decide) (Nat.succ_pos d)

theorem lt_pow_digits (n : Nat) : n < 10 ^ digits n :=
  (Nat.length_toDigits_le_iff (by decide) Nat.length_toDigits_pos).mp le_rfl

theorem digits_mono : Monotone digits := fun _ _ le =>
  (Nat.length_toDigits_le_iff (by decide) Nat.length_toDigits_pos).mpr (le.trans_lt (lt_pow_digits _))

theorem digits_double (n : Nat) : digits (2 * n + 1) ≤ digits n + 1 := by
  have := lt_pow_digits n
  rw [digits_le_iff, pow_succ]
  omega

theorem digits_le (n : Nat) : digits n ≤ n / 10 + 1 := by
  have : n / 10 < 10 ^ (n / 10) := Nat.lt_pow_self (by decide)
  rw [digits_le_iff, pow_succ]
  omega

variable {n limit : Nat}

theorem slow_digits : Slow n digits :=
  ⟨digits_mono, (digits_mono (Nat.le_succ _)).trans (digits_double n)⟩

theorem digits_pressure_le (limit size : Nat) : digits (pressure limit size) ≤ 4 :=
  digits_le_iff.mpr ((min_le_left ..).trans_lt (by decide))

theorem double_div (n : Nat) {top : Nat} (positive : 0 < top) :
    2 * n / top ≤ 2 * (n / top) + 1 := by
  have below := Nat.lt_mul_div_succ n positive
  refine Nat.le_of_lt_succ (Nat.div_lt_of_lt_mul ?_)
  calc 2 * n < 2 * (top * (n / top + 1)) := by omega
    _ = top * (2 * (n / top) + 1).succ := Nat.mul_left_comm ..

theorem slow_pressure : Slow n fun size => digits (pressure limit size) := by
  refine ⟨fun a b le => digits_mono (min_le_min_left _ (Nat.div_le_div_right (by omega))), ?_⟩
  refine (digits_mono ?_).trans (digits_double _)
  have double := double_div (n * 1000) (show 0 < max 1 limit by omega)
  rw [pressure, pressure, Nat.mul_assoc]
  omega

/-! ### What a request takes -/

/-- The request with other records. -/
def StepRequest.recording (x : StepRequest) (window : Option ContextWindow) (after : Nat) :
    StepRequest :=
  { x with window := window, compaction := x.compaction.map fun c => { c with afterBytes := after } }

/-- The length of the bytes after a compaction, if there was one. -/
def StepRequest.afterDigits (x : StepRequest) (after : Nat) : Nat :=
  if x.compaction = none then 0 else digits after

theorem bytes_window (w : ContextWindow) : bytes w.json =
    (if w.providerSerialized then 97 else 98) + digits w.limitBytes + digits w.inputBytes +
      digits w.pressurePermille := by
  have texts : bytes (written "\"context_window\":\x7b\"limit_bytes\":") = 32 ∧
      bytes (written ",\"input_bytes\":") = 15 ∧ bytes (written ",\"pressure_permille\":") = 21 ∧
      bytes (written ",\"provider_serialized\":true\x7d,") = 29 ∧
      bytes (written ",\"provider_serialized\":false\x7d,") = 30 := by decide +kernel
  obtain ⟨top, input, pressed, counted, uncounted⟩ := texts
  rw [ContextWindow.json, bytes_append, bytes_append, bytes_append, bytes_append, bytes_append,
    bytes_append, bytes_number, bytes_number, bytes_number, top, input, pressed]
  split
  · rw [counted]
    omega
  · rw [uncounted]
    omega

theorem bytes_compaction (c : ContextCompaction) :
    bytes c.json = bytes c.before + 15 + digits c.afterBytes := by
  have texts : bytes (written "\"after_bytes\":") = 14 ∧ bytes (written "\x7d") = 1 := by decide +kernel
  rw [ContextCompaction.json, bytes_append, bytes_append, bytes_append, bytes_number, texts.1, texts.2]
  omega

/-- What does not depend on the sizes. -/
def StepRequest.rest (x : StepRequest) (limit : Nat) (counted : Bool) : Nat :=
  bytes x.head + bytes x.body + digits limit + (if counted then 98 else 99) +
    (x.compaction.elim 0 fun c => bytes c.before + 15)

theorem rest_ge (x : StepRequest) (limit : Nat) (counted : Bool) : 99 ≤ x.rest limit counted := by
  have : 0 < digits limit := Nat.length_toDigits_pos
  simp only [StepRequest.rest]
  split <;> omega

theorem bytes_recording (x : StepRequest) (limit size a : Nat) (counted : Bool) :
    bytes (x.recording (some (contextWindow limit size counted)) a).json =
      x.rest limit counted + digits size + digits (pressure limit size) + x.afterDigits a := by
  have last : bytes (written "\x7d") = 1 := by decide +kernel
  have window := bytes_window (contextWindow limit size counted)
  rw [StepRequest.json, bytes_append, bytes_append, bytes_append, bytes_append, last]
  cases compacted : x.compaction with
  | none =>
    simp only [StepRequest.recording, StepRequest.rest, StepRequest.afterDigits, compacted,
      Option.map_none, Option.elim_none, Option.elim_some, window, bytes_nil]
    grind [contextWindow]
  | some c =>
    simp only [StepRequest.recording, StepRequest.rest, StepRequest.afterDigits, compacted,
      Option.map_some, Option.elim_some, window, bytes_compaction]
    grind [contextWindow]

/-! ### Rounds -/

def StepRequest.after (x : StepRequest) : Nat := x.compaction.elim 0 (·.afterBytes)

theorem recording_self (x : StepRequest) : x.recording x.window x.after = x := by
  obtain ⟨_, _, _, compaction⟩ := x
  cases compaction <;> rfl

theorem noted_recording (x : StepRequest) (window : Option ContextWindow) (w : ContextWindow)
    (a : Nat) : (x.recording window a).noted w =
      x.recording (some w) (bytes (x.recording (some w) a).json) := by
  simp [StepRequest.noted, StepRequest.recording, Function.comp_def]

/-- The request records what it takes. -/
structure StepRequest.Settled (sizer : Option Sizer) (limit : Nat) (x : StepRequest) : Prop where
  window : ∃ size counted, conversationStepInputMeasurement sizer x = .ok (size, counted) ∧
    x.window = some (contextWindow limit size counted)
  after : ∀ c, x.compaction = some c → c.afterBytes = bytes x.json

def StepRequest.next (size : StepRequest → Nat) (counted : Bool) (limit : Nat) (x : StepRequest) :
    StepRequest :=
  x.noted (contextWindow limit (size x) counted)

variable {x : StepRequest} {sizer : Option Sizer} {size : StepRequest → Nat} {counted : Bool}

theorem settled_of_fixed
    (measured : conversationStepInputMeasurement sizer x = .ok (size x, counted))
    (fixed : x.next size counted limit = x) : x.Settled sizer limit := by
  have window : x.window = some _ := (congrArg StepRequest.window fixed).symm
  refine ⟨⟨_, _, measured, window⟩, fun c compacted => ?_⟩
  have same := congrArg StepRequest.compaction fixed
  simp only [StepRequest.next, StepRequest.noted, ← window, compacted, Option.map_some,
    Option.some.injEq] at same
  rw [← compacted] at same
  exact (congrArg ContextCompaction.afterBytes same).symm

/-- A request that comes to rest before the rounds are used up is answered. -/
theorem settleContext_settles (measures : ∀ window a, conversationStepInputMeasurement sizer
      (x.recording window a) = .ok (size (x.recording window a), counted)) {k n : Nat} (short : k < n)
    {window : Option ContextWindow} {a : Nat}
    (rests : (StepRequest.next size counted limit)^[k + 1] (x.recording window a) =
      (StepRequest.next size counted limit)^[k] (x.recording window a)) :
    ∃ w b, settleContext sizer limit n (x.recording window a) = .ok (x.recording w b) ∧
      (x.recording w b).Settled sizer limit := by
  induction n generalizing k window a with
  | zero => cases short
  | succ n ih =>
    simp only [settleContext, measures, Bind.bind, Except.bind]
    split
    · next fixed => exact ⟨_, _, rfl, settled_of_fixed (measures ..) fixed⟩
    · next moves =>
      cases k with
      | zero => exact absurd rests moves
      | succ k =>
        rw [noted_recording]
        refine ih (Nat.lt_of_succ_lt_succ short) ?_
        rw [← noted_recording]
        exact rests

theorem slow_after (x : StepRequest) : Slow n x.afterDigits := by
  unfold StepRequest.afterDigits
  split
  · exact .const 0
  · exact slow_digits

theorem afterDigits_le (x : StepRequest) (a : Nat) : x.afterDigits a ≤ digits a := by
  unfold StepRequest.afterDigits
  split <;> omega

theorem digits_fits {n : Nat} (fits : n < 2 ^ 63) : digits n ≤ 19 :=
  digits_le_iff.mpr (fits.trans (by decide))

/-- Rounds that write two sizes down come to rest, whatever they start from. -/
theorem next_rests {t : Lengths} (settling : t.Settling) (wide : 99 ≤ t.frame)
    (third : t.third = x.afterDigits) (window : Nat → ContextWindow) {i : Nat}
    (short : t.first i + t.second i ≤ 23) (after : x.after < 2 ^ 63)
    (start : x.next size counted limit = x.recording (some (window i)) (t.size i x.after))
    (round : ∀ p : Nat × Nat, (x.recording (some (window p.1)) p.2).next size counted limit =
      x.recording (some (window (t.round p).1)) (t.round p).2) :
    (StepRequest.next size counted limit)^[8] x = (StepRequest.next size counted limit)^[7] x := by
  have two : t.size i x.after ≤ 2 * t.frame := by
    have := (afterDigits_le x x.after).trans (digits_fits after)
    simp only [Lengths.size, third]
    omega
  have one : t.size i (t.size i x.after) ≤ 2 * t.frame := by
    have := (afterDigits_le x _).trans (digits_le (t.size i x.after))
    rw [Lengths.size, third]
    omega
  have run : Function.Semiconj (fun p : Nat × Nat => x.recording (some (window p.1)) p.2) t.round
      (StepRequest.next size counted limit) := fun p => (round p).symm
  have first : (StepRequest.next size counted limit)^[2] x = _ :=
    (congrArg _ start).trans (round (i, t.size i x.after))
  rw [Function.iterate_add_apply _ 6 2, Function.iterate_add_apply _ 5 2, first,
    ← (run.iterate_right 6).eq, ← (run.iterate_right 5).eq,
    settling.settles one ((settling.size_le one two).trans settling.room)]

/-- The request is short enough to compute its pressure in an `int`, and what it
comes with is one. -/
structure StepRequest.Fits (x : StepRequest) : Prop where
  size : bytes x.json < 2 ^ 53
  after : x.after < 2 ^ 63

/-- A request that is measured by its own encoding. -/
theorem encoding_rests (fits : x.Fits) :
    (StepRequest.next (fun y => bytes y.json) false limit)^[8] x =
      (StepRequest.next (fun y => bytes y.json) false limit)^[7] x := by
  let t : Lengths := ⟨x.rest limit false, digits, fun n => digits (pressure limit n), x.afterDigits⟩
  have wide := rest_ge x limit false
  have round (window : Option ContextWindow) (a i : Nat) (is : bytes (x.recording window a).json = i) :
      (x.recording window a).next (fun y => bytes y.json) false limit =
        x.recording (some (contextWindow limit i false)) (t.size i a) := by
    rw [StepRequest.next, noted_recording, is, bytes_recording]
    rfl
  have start := round x.window x.after _ rfl
  rw [recording_self] at start
  refine next_rests ⟨slow_digits, slow_pressure, slow_after x, ?_⟩ wide rfl
    (contextWindow limit · false) ?_ fits.after start fun p => round _ _ _ (bytes_recording ..)
  · have := (afterDigits_le x (x.rest limit false)).trans (digits_le _)
    have := digits_le (x.rest limit false)
    have := digits_pressure_le limit (x.rest limit false)
    simp only [Lengths.size, t]
    omega
  · exact Nat.add_le_add (digits_fits (fits.size.trans (by decide))) (digits_pressure_le ..)

/-- A request that the model measures. -/
theorem counting_rests {n : Nat} (after : x.after < 2 ^ 63) :
    (StepRequest.next (fun _ => n) true limit)^[8] x =
      (StepRequest.next (fun _ => n) true limit)^[7] x := by
  let t : Lengths := ⟨x.rest limit true + digits n + digits (pressure limit n), fun _ => 0,
    fun _ => 0, x.afterDigits⟩
  have wide : 99 ≤ t.frame := by have := rest_ge x limit true; simp only [t]; omega
  have round (window : Option ContextWindow) (a i : Nat) :
      (x.recording window a).next (fun _ => n) true limit =
        x.recording (some (contextWindow limit n true)) (t.size i a) := by
    rw [StepRequest.next, noted_recording, bytes_recording]
    rfl
  have start := round x.window x.after 0
  rw [recording_self] at start
  refine next_rests ⟨.const 0, .const 0, slow_after x, ?_⟩ wide rfl
    (fun _ => contextWindow limit n true) (Nat.zero_le _) after start fun p => round _ _ _
  have := (afterDigits_le x t.frame).trans (digits_le _)
  change t.frame + 0 + 0 + x.afterDigits t.frame + 3 ≤ 2 * t.frame
  omega

/-- **The context size settles.**  For every request and limit the sixteen rounds
are enough: the answer is the request with other records, and these are the ones
computed from that very request.  It is measured by its own encoding, or by a
model that takes no notice of the records. -/
theorem context_size_settles (sizer : Option Sizer) (x : StepRequest) (limit : Nat) (fits : x.Fits)
    (ignores : ∀ meter, sizer = some meter → ∃ size, 1 ≤ size ∧
      ∀ window a, meter (x.recording window a) = .ok size) :
    ∃ window a, finalizeConversationStepContext sizer x limit = .ok (x.recording window a) ∧
      (x.recording window a).Settled sizer limit := by
  have settles {size : StepRequest → Nat} {counted : Bool}
      (measures : ∀ window a, conversationStepInputMeasurement sizer (x.recording window a) =
        .ok (size (x.recording window a), counted))
      (rests : (StepRequest.next size counted limit)^[8] x =
        (StepRequest.next size counted limit)^[7] x) := by
    rw [← recording_self x] at rests
    have settles := settleContext_settles measures (show 7 < 16 by decide) rests
    rwa [recording_self] at settles
  cases sizer with
  | none => exact settles (fun _ _ => rfl) (encoding_rests fits)
  | some meter =>
    obtain ⟨size, positive, counts⟩ := ignores meter rfl
    refine settles (fun window a => ?_) (counting_rests (n := size) fits.after)
    simp only [conversationStepInputMeasurement, counts, Bind.bind, Except.bind]
    exact if_neg (Nat.not_lt.mpr positive)

/-- A request that was compacted and has not been measured. -/
def sampleStep : StepRequest :=
  ⟨written "\x7b", none, written "\"messages\":[]", some ⟨written ",\"compaction\":\x7b", 0⟩⟩

theorem sample_step_settles : ∃ window a, finalizeConversationStepContext none sampleStep 4096 =
      .ok (sampleStep.recording window a) ∧ (sampleStep.recording window a).Settled none 4096 :=
  context_size_settles none sampleStep 4096 ⟨by decide +kernel, by decide⟩ (fun _ h => nomatch h)

end DomainryAgent.ContextSize
