import DomainryAgent.SingleExecutor

/-!
What of an agreement a projection tells.

A projection is the text of an object: the fields it selects, each with the text
of its value.  Such a text is taken apart into its members again, so it tells
apart exactly what has another text in one of them.  The texts of a brief are
those of its values; a structured input is written without its blanks.
-/

namespace DomainryAgent

open Lib Json

/-! ### Fields -/

/-- The text of a field; a field that is left out of a brief is `null`. -/
def fieldJSON (brief : Brief) (input : Option StructuredInput) : AgreementField → Text
  | .goal => quote brief.goal
  | .deliverable => quote brief.deliverable
  | .audience => quote brief.audience
  | .constraints => textsJSON brief.constraints
  | .completionConditions => textsJSON brief.completionConditions
  | .verificationRules => if brief.verificationRules = [] then null
      else array (brief.verificationRules.map CompletionRule.json)
  | .assumptions => textsJSON brief.assumptions
  | .dueAt => brief.dueAt.elim null fun t => quote t.format
  | .input => inputJSON input
  | .dependencies | .assignment => null

variable {b b' : Brief} {i i' : Option StructuredInput} {field : AgreementField}
  {fields : List AgreementField}

theorem key_injective : Function.Injective AgreementField.key := by
  intro f g
  cases f <;> cases g <;> decide +kernel

theorem key_beq (f g : AgreementField) : (f.key == g.key) = decide (f = g) := by
  rw [Bool.eq_iff_iff, beq_iff_eq, decide_eq_true_iff]
  exact key_injective.eq_iff

theorem key_beq_version (f : AgreementField) : (f.key == quote "version") = false := by
  cases f <;> decide +kernel

theorem isValue_key (field : AgreementField) : IsValue field.key := isValue_quote _

/-! ### Their texts are values -/

/-- Keys and values that an object can be made of. -/
abbrev Sound (members : List Member) : Prop := ∀ m ∈ members, IsValue m.1 ∧ IsValue m.2

theorem sound_optionalText (key value : String) : Sound (optionalText key value) := by
  unfold optionalText
  split
  · simp
  · simp [Sound, isValue_quote]

theorem sound_optionalRaw (key : String) (value : Option RawMessage) :
    Sound (optionalRaw key value) := by
  cases value with
  | none => simp [Sound, optionalRaw]
  | some raw =>
    intro m member
    cases List.mem_singleton.mp member
    exact ⟨isValue_quote key, raw.value⟩

theorem isValue_rule (rule : CompletionRule) : IsValue rule.json := by
  refine isValue_object fun m member => ?_
  simp only [List.mem_append, List.mem_cons, List.not_mem_nil, or_false] at member
  rcases member with (((((member | member) | member) | member) | member) | member) | member
  · rcases member with rfl | rfl <;> simp [isValue_quote, isValue_number]
  · exact sound_optionalRaw _ _ m member
  · exact sound_optionalText _ _ m member
  · exact sound_optionalRaw _ _ m member
  · exact sound_optionalRaw _ _ m member
  · split at member
    · cases member
    · cases List.mem_singleton.mp member
      exact ⟨isValue_quote _, isValue_number _⟩
  · exact sound_optionalText _ _ m member

theorem isValue_textsJSON (values : Option (List String)) : IsValue (textsJSON values) := by
  cases values with
  | none => exact isValue_null
  | some values =>
    refine isValue_array fun item member => ?_
    obtain ⟨value, _, rfl⟩ := List.mem_map.mp member
    exact isValue_quote value

theorem isValue_inputJSON (input : Option StructuredInput) : IsValue (inputJSON input) := by
  cases input with
  | none => exact isValue_null
  | some input =>
    refine isValue_object fun m member => ?_
    rcases List.mem_append.mp member with member | member
    · exact sound_optionalRaw _ _ m member
    · cases List.mem_singleton.mp member
      exact ⟨isValue_quote _, input.data.value⟩

theorem isValue_rules (rules : List CompletionRule) :
    IsValue (array (rules.map CompletionRule.json)) := by
  refine isValue_array fun item member => ?_
  obtain ⟨rule, _, rfl⟩ := List.mem_map.mp member
  exact isValue_rule rule

theorem isValue_fieldJSON (b : Brief) (i : Option StructuredInput) (field : AgreementField) :
    IsValue (fieldJSON b i field) := by
  cases field with
  | verificationRules =>
    simp only [fieldJSON]
    split
    · exact isValue_null
    · exact isValue_rules _
  | dueAt =>
    simp only [fieldJSON]
    cases b.dueAt with
    | none => exact isValue_null
    | some t => exact isValue_quote _
  | goal | deliverable | audience => exact isValue_quote _
  | constraints | completionConditions | assumptions => exact isValue_textsJSON _
  | input => exact isValue_inputJSON i
  | dependencies | assignment => exact isValue_null

theorem sound_briefMembers (b : Brief) : Sound (briefMembers b) := by
  simp only [Sound, briefMembers, List.forall_mem_append, List.forall_mem_cons]
  refine ⟨⟨?_, ⟨isValue_quote _, isValue_number _⟩, ⟨isValue_key .goal, isValue_quote _⟩,
    ⟨isValue_key .deliverable, isValue_quote _⟩, ⟨isValue_key .audience, isValue_quote _⟩,
    ⟨isValue_key .constraints, isValue_textsJSON _⟩,
    ⟨isValue_key .completionConditions, isValue_textsJSON _⟩,
    ⟨isValue_key .assumptions, isValue_textsJSON _⟩, nofun⟩, ?_⟩
  · intro m member
    split at member
    · exact absurd member List.not_mem_nil
    · rw [List.mem_singleton.mp member]
      exact ⟨isValue_key .verificationRules, isValue_rules b.verificationRules⟩
  · intro m member
    obtain ⟨t, _, rfl⟩ := List.mem_map.mp member
    exact ⟨isValue_key .dueAt, isValue_quote t.format⟩

/-! ### Projections -/

/-- The members for some fields, in the order in which an object has them. -/
def fieldMembers (brief : Brief) (input : Option StructuredInput) (fields : List AgreementField) :
    List Member :=
  (sortedFields.filter (· ∈ fields)).map fun field => (field.key, fieldJSON brief input field)

theorem sound_fieldMembers (b : Brief) (i : Option StructuredInput) (fields : List AgreementField) :
    Sound (fieldMembers b i fields) := by
  intro m member
  obtain ⟨field, _, rfl⟩ := List.mem_map.mp member
  exact ⟨isValue_key field, isValue_fieldJSON b i field⟩

/-- What a brief has under the key of one of its fields. -/
theorem lookup_briefMembers (known : field ∈ briefFields) :
    ((briefMembers b).lookup field.key).getD null = fieldJSON b i field := by
  -- The two fields that may be left out are looked for behind and before the rest.
  by_cases rules : b.verificationRules = [] <;> cases due : b.dueAt <;>
    simp only [briefFields, List.mem_cons, List.not_mem_nil, or_false] at known <;>
    rcases known with rfl | rfl | rfl | rfl | rfl | rfl | rfl | rfl <;>
    simp [briefMembers, fieldJSON, List.lookup_cons, key_beq, key_beq_version, rules, due]

theorem lookup_map_key {values : AgreementField → Text} :
    (fields.map fun field => (field.key, values field)).lookup field.key =
      if field ∈ fields then some (values field) else none := by
  induction fields with
  | nil => rfl
  | cons first fields ih =>
    rw [List.map_cons, List.lookup_cons, ih]
    by_cases same : field = first
    · simp [same]
    · have other : (field.key == first.key) = false := by
        simpa using fun equal => same (key_injective equal)
      simp [other, same]

theorem sortedMembers_map {values : AgreementField → Text} :
    sortedMembers (fields.map fun field => (field.key, values field)) =
      (sortedFields.filter (· ∈ fields)).map fun field => (field.key, values field) := by
  unfold sortedMembers
  simp only [lookup_map_key]
  induction sortedFields with
  | nil => rfl
  | cons field rest ih =>
    rw [List.filterMap_cons, List.filter_cons, ih]
    by_cases selected : field ∈ fields <;> simp [selected]

theorem mem_sortedFields (field : AgreementField) : field ∈ sortedFields := by
  cases field <;> decide

theorem object_injective {m m' : List Member} (sound : Sound m) (sound' : Sound m')
    (same : object m = object m') : m = m' := by
  have read := unmarshal_object sound
  rw [same, unmarshal_object sound'] at read
  exact (Option.some.inj read).symm

/-- Known fields that are named once each have a projection. -/
theorem briefProjection_eq (some_ : fields ≠ []) (distinct : fields.Nodup)
    (known : ∀ field ∈ fields, field ∈ briefFields) :
    briefProjection b fields = some (object (fieldMembers b i fields)) := by
  have short : ¬ briefFields.length < fields.length :=
    Nat.not_lt.mpr (distinct.subperm known).length_le
  have values : (fields.map fun field => (field.key, ((briefMembers b).lookup field.key).getD null)) =
      fields.map fun field => (field.key, fieldJSON b i field) :=
    List.map_congr_left fun field member => by rw [lookup_briefMembers (known field member)]
  simp only [briefProjection, if_neg some_, if_neg short, unmarshal_object (sound_briefMembers b),
    Option.bind_eq_bind, Option.bind_some, if_pos (And.intro distinct known)]
  rw [values, sortedMembers_map]
  rfl

/-- What a dependency on `fields` rests on; none named stands for all of them. -/
def projectedFields (fields : List AgreementField) : List AgreementField :=
  if fields = [] then briefFields ++ [.input] else fields

/-- The fields a projection selects from a brief: rules are left out of all the
fields where there are none. -/
def selectedFields (brief : Brief) (fields : List AgreementField) : List AgreementField :=
  if fields = [] then currentBriefFields brief ++ [.input] else fields

theorem mem_selectedFields : field ∈ selectedFields b fields ↔ field ∈ projectedFields fields ∧
    (fields = [] → field = .verificationRules → b.verificationRules ≠ []) := by
  unfold selectedFields projectedFields
  split
  · next none =>
    simp only [currentBriefFields, List.mem_append, List.mem_filter, List.mem_singleton,
      decide_eq_true_eq]
    by_cases rules : field = .verificationRules
    · subst rules
      simp [none, briefFields]
    · simp [rules]
  · next some => simp [some]

/-- The selected fields are known and named once each. -/
theorem selectedFields_sound (distinct : fields.Nodup)
    (known : ∀ field ∈ fields, field ∈ briefFields ∨ field = .input) :
    (selectedFields b fields).Nodup ∧
      ∀ field ∈ selectedFields b fields, field ∈ briefFields ∨ field = .input := by
  unfold selectedFields
  split
  · constructor
    · refine List.Nodup.append (.filter _ (by decide)) (by decide) ?_
      simp [currentBriefFields, briefFields]
    · simp only [currentBriefFields, List.mem_append, List.mem_filter, List.mem_singleton]
      exact fun field member => member.imp_left And.left
  · exact ⟨distinct, known⟩

/-- The other fields are projected first and read back. -/
theorem values_eq (distinct : fields.Nodup)
    (known : ∀ field ∈ fields, field ∈ briefFields ∨ field = .input) :
    (if fields.filter (· ≠ .input) = [] then some []
      else (briefProjection b (fields.filter (· ≠ .input))).bind unmarshal) =
    some (fieldMembers b i (fields.filter (· ≠ .input))) := by
  split
  · next none =>
    rw [none]
    simp [fieldMembers]
  · next some_ =>
    have inside : ∀ field ∈ fields.filter (· ≠ .input), field ∈ briefFields := fun field member =>
      (known field (List.mem_of_mem_filter member)).resolve_right
        (of_decide_eq_true (List.mem_filter.mp member).2)
    rw [briefProjection_eq some_ (distinct.filter _) inside, Option.bind_some,
      unmarshal_object (sound_fieldMembers b i _)]

/-- The members of the other fields with the input beside them are those of all. -/
theorem sortedMembers_values :
    sortedMembers (if .input ∈ fields
      then (AgreementField.key .input, inputJSON i) :: fieldMembers b i (fields.filter (· ≠ .input))
      else fieldMembers b i (fields.filter (· ≠ .input))) = fieldMembers b i fields := by
  split
  · next inside =>
    change sortedMembers ((.input :: sortedFields.filter (· ∈ fields.filter (· ≠ .input))).map
      fun field => (field.key, fieldJSON b i field)) = _
    rw [sortedMembers_map]
    refine congrArg (List.map _) (List.filter_congr fun field _ => ?_)
    by_cases same : field = .input <;> simp [same, inside, mem_sortedFields]
  · next outside =>
    have all : fields.filter (· ≠ .input) = fields := by
      refine List.filter_eq_self.mpr fun field member => decide_eq_true ?_
      rintro rfl
      exact outside member
    rw [all]
    refine sortedMembers_map.trans (congrArg (List.map _) (List.filter_congr fun field _ => ?_))
    simp [mem_sortedFields]

/-- The projection of the brief is read back and the input put beside it. -/
theorem dependencyProjection_eq (distinct : fields.Nodup)
    (known : ∀ field ∈ fields, field ∈ briefFields ∨ field = .input) :
    dependencyProjection b i fields = some (object (fieldMembers b i (selectedFields b fields))) := by
  obtain ⟨distinct, known⟩ := selectedFields_sound (b := b) distinct known
  unfold dependencyProjection
  rw [show (if fields = [] then currentBriefFields b ++ [.input] else fields) =
    selectedFields b fields from rfl]
  have once : ¬ 1 < (selectedFields b fields).count .input :=
    Nat.not_lt.mpr (List.nodup_iff_count_le_one.mp distinct _)
  simp only [if_neg once, values_eq (i := i) distinct known, Option.bind_eq_bind, Option.bind_some,
    sortedMembers_values]

theorem rulesJSON_eq_null {rules : List CompletionRule} :
    array (rules.map CompletionRule.json) ≠ null := nofun

/-- A brief selects its rules among all fields exactly when they have a text. -/
theorem selects_rules : b.verificationRules ≠ [] ↔ fieldJSON b i .verificationRules ≠ null := by
  simp only [fieldJSON]
  split
  · next none => simp [none]
  · next some_ => simp [some_, rulesJSON_eq_null]

theorem selectedFields_congr
    (same : ∀ field ∈ projectedFields fields, fieldJSON b i field = fieldJSON b' i' field) :
    field ∈ selectedFields b fields ↔ field ∈ selectedFields b' fields := by
  simp only [mem_selectedFields]
  refine and_congr_right fun member => forall₂_congr fun _ rules => ?_
  subst rules
  rw [selects_rules (i := i), selects_rules (i := i'), same _ member]

theorem mem_fieldMembers {value : Text} : (field.key, value) ∈ fieldMembers b i fields ↔
    field ∈ fields ∧ fieldJSON b i field = value := by
  simp only [fieldMembers, List.mem_map, List.mem_filter, decide_eq_true_eq, Prod.mk.injEq,
    mem_sortedFields, true_and, key_injective.eq_iff]
  constructor
  · rintro ⟨_, selected, rfl, same⟩
    exact ⟨selected, same⟩
  · rintro ⟨selected, same⟩
    exact ⟨field, selected, rfl, same⟩

/-- The members of a projection tell the text of every field it rests on. -/
theorem fieldMembers_selected_iff :
    fieldMembers b i (selectedFields b fields) = fieldMembers b' i' (selectedFields b' fields) ↔
      ∀ field ∈ projectedFields fields, fieldJSON b i field = fieldJSON b' i' field := by
  constructor
  · intro same field member
    by_cases selected : field ∈ selectedFields b fields
    · have here := (mem_fieldMembers (b := b) (i := i)).mpr ⟨selected, rfl⟩
      exact (mem_fieldMembers.mp (same ▸ here)).2.symm
    · by_cases selected' : field ∈ selectedFields b' fields
      · have there := (mem_fieldMembers (b := b') (i := i')).mpr ⟨selected', rfl⟩
        exact (mem_fieldMembers.mp (same ▸ there)).2
      · -- neither selects it: there are no rules on either side
        simp only [mem_selectedFields, member, true_and, not_forall, not_not, exists_prop]
          at selected selected'
        obtain ⟨-, rfl, none⟩ := selected
        simp only [fieldJSON, none, selected'.2.2]
  · intro same
    simp only [fieldMembers, selectedFields_congr same]
    refine List.map_congr_left fun field member => ?_
    have selected : field ∈ selectedFields b' fields := by simpa using (List.mem_filter.mp member).2
    rw [same field (mem_selectedFields.mp selected).1]

/-- **Dependency projections.**  Two agreements have the same projection on some
fields exactly when each of these has the same text in both, in whatever order
they are named; naming none rests on all fields and the input.  The fields that
changed are those whose own projections differ. -/
theorem projection_law (distinct : fields.Nodup)
    (known : ∀ field ∈ fields, field ∈ briefFields ∨ field = .input) :
    (dependencyProjection b i fields).isSome = true ∧
    (dependencyProjection b i fields = dependencyProjection b' i' fields ↔
      ∀ field ∈ projectedFields fields, fieldJSON b i field = fieldJSON b' i' field) ∧
    (∀ fields' : List AgreementField, fields'.Perm fields →
      dependencyProjection b i fields' = dependencyProjection b i fields) ∧
    ∀ field, field ∈ changedBriefFields b b' ↔
      field ∈ briefFields ∧ briefProjection b [field] ≠ briefProjection b' [field] := by
  refine ⟨?_, ?_, fun fields' same => ?_, fun field => ?_⟩
  · rw [dependencyProjection_eq distinct known]
    rfl
  · rw [dependencyProjection_eq distinct known, dependencyProjection_eq distinct known,
      Option.some_inj, ← fieldMembers_selected_iff]
    exact ⟨object_injective (sound_fieldMembers b i _) (sound_fieldMembers b' i' _), congrArg object⟩
  · have selects : ∀ field, field ∈ selectedFields b fields' ↔ field ∈ selectedFields b fields := by
      intro field
      rcases eq_or_ne fields [] with rfl | some_
      · rw [same.eq_nil]
      · have some_' : fields' ≠ [] := fun none => some_ (same.symm.trans (none ▸ .refl _)).eq_nil
        simp [selectedFields, some_, some_', same.mem_iff]
    rw [dependencyProjection_eq distinct known, dependencyProjection_eq (same.nodup_iff.mpr distinct)
      fun field member => known field (same.mem_iff.mp member)]
    simp only [fieldMembers, selects]
  · simp [changedBriefFields, mem_sortedFields]

theorem projection_law_goal :
    dependencyProjection sampleBrief none [.goal] =
      dependencyProjection { sampleBrief with audience := "all" } none [.goal] :=
  (projection_law (by decide) (by decide)).2.1.mpr (by decide +kernel)

def sampleMembers : List Member := [(quote "from", number 1), (quote "to", number 2)]

/-- An input is compared as it was written: the same members in another order are
another text. -/
theorem member_order_is_projected : ∃ data data' : RawMessage,
    data.text = object sampleMembers ∧ data'.text = object sampleMembers.reverse ∧
    dependencyProjection sampleBrief (some ⟨none, data⟩) [.input] ≠
      dependencyProjection sampleBrief (some ⟨none, data'⟩) [.input] :=
  ⟨⟨object sampleMembers, by decide +kernel⟩, ⟨object sampleMembers.reverse, by decide +kernel⟩,
    rfl, rfl, by decide +kernel⟩

end DomainryAgent
