import Mathlib.Algebra.Order.Field.Rat
import Mathlib.Tactic.NormNum
import OnixCore.ModuleSchema.MkSettings
import OnixCore.ModuleSchema.Proofs.Contracts

/-!
# One schema, two interpreters

For a descriptor that satisfies `FieldDescriptor`, the validator entry and the option accept the
same values and ask for the same fields, but for two tags: a `number` is any number to Nickel and
an integer to Nix, and a `port` is any number from 1 to 65535 to Nickel and an integer from 0 to
65535 to Nix (`interpreters_agree_iff`).
-/

namespace OnixCore.ModuleSchema

variable {fd v : Value} {name : String}

section Descriptor

/-- What a descriptor that satisfies `FieldDescriptor` holds. -/
structure WellTyped (fields : List (String × Value)) (tag : String) : Prop where
  type : fields.lookup "type" = some (.str tag)
  known : tag ∈ validTypes
  values : tag = "enum" → ∃ elems, fields.lookup "values" = some (.arr elems)
    ∧ elems.all Value.isString = true

theorem ite_return_eq_ok {c : Prop} [Decidable c] {message : String} {notes : List String}
    {x : Eval Verdict} :
    (if c then return .error message notes else x) = .ok .ok ↔ ¬ c ∧ x = .ok .ok := by
  split_ifs with h <;> simp [h]

theorem both_eq_false {a : Bool} {x : Eval Bool} :
    both a x = .ok false ↔ (a = true → x = .ok false) := by
  cases a <;> simp [both]

theorem lookup_of_field {fields : List (String × Value)}
    (h : Value.field name (.record fields) = .ok v) : fields.lookup name = some v := by
  rcases hl : fields.lookup name with _ | found
  · simp [Value.field, hl, throw, throwThe, MonadExceptOf.throw] at h
  · simpa [Value.field, hl] using h

theorem elem_map_str {tag : String} {tags : List String} :
    Value.elem (.str tag) (tags.map .str) = true ↔ tag ∈ tags := by
  simp [Value.elem]

theorem elements_eq_ok {elems : List Value} : v.elements = .ok elems ↔ v = .arr elems := by
  cases v <;> simp [Value.elements, throw, throwThe, MonadExceptOf.throw]

theorem wellTyped_of_accepts (h : Accepts fieldDescriptor fd) :
    ∃ fields tag, fd = .record fields ∧ WellTyped fields tag := by
  unfold Accepts fieldDescriptor at h
  simp only [ite_return_eq_ok, bind_eq_ok] at h
  obtain ⟨hrecord, -, -, -, type, htype, hstring, h⟩ := h
  rcases fd with _ | _ | _ | _ | _ | fields | _
  case record =>
    rcases type with _ | _ | _ | tag | _ | _ | _
    case str =>
      simp only [Value.text, pure_bind, ite_return_eq_ok, bind_eq_ok, Bool.not_eq_true] at h
      obtain ⟨hknown, missing, -, -, array, -, -, strings, hstrings, rfl, -⟩ := h
      refine ⟨fields, tag, rfl, lookup_of_field htype, elem_map_str.1 (by simpa using hknown),
        ?_⟩
      rintro rfl
      have hvalues := both_eq_false.1 hstrings Value.same_str
      simp only [bind_eq_ok, pure_eq_ok, Bool.not_eq_false'] at hvalues
      obtain ⟨values, hvalues, elems, helems, hall⟩ := hvalues
      obtain rfl := elements_eq_ok.1 helems
      exact ⟨elems, lookup_of_field hvalues, hall⟩
    all_goals exact absurd rfl hstring
  all_goals exact absurd rfl hrecord

end Descriptor

section Tables

/-- The two tables split on `v`: it is a number that one of them takes for a `number` or a `port`
and the other does not. -/
def Splits (tag : String) (v : Value) : Prop :=
  ∃ q, v = .num q ∧ (tag = "number" ∧ q.isInt = false
    ∨ tag = "port" ∧ (q = 0 ∨ q.isInt = false ∧ 1 ≤ q ∧ q ≤ 65535))

theorem not_splits {tag : String} (hn : tag ≠ "number") (hp : tag ≠ "port") : ¬ Splits tag v := by
  rintro ⟨q, -, ⟨rfl, -⟩ | ⟨rfl, -⟩⟩
  · exact hn rfl
  · exact hp rfl

/-- A number with a fractional part is what splits the two readings of `number`. -/
theorem number_agrees :
    (typeCheck (.str "number") v = true ↔ OptionType.int.check v = true) ↔ ¬ Splits "number" v := by
  cases v <;> simp [typeCheck, OptionType.check, Value.isNumber, Splits]

theorem one_le_of_isInt {q : ℚ} (hint : q.isInt = true) (hnonneg : 0 ≤ q) (hne : q ≠ 0) :
    1 ≤ q := by
  have hnum : q = q.num := Rat.eq_num_of_isInt hint
  have hpos : 0 < q.num := lt_of_le_of_ne (Rat.num_nonneg.2 hnonneg) (Ne.symm (Rat.num_ne_zero.2 hne))
  rw [hnum]
  exact_mod_cast hpos

/-- A port is split at zero and at the fractions in its range. -/
theorem port_agrees :
    (typeCheck (.str "port") v = true ↔ OptionType.port.check v = true) ↔ ¬ Splits "port" v := by
  cases v
  case num q =>
    have hchecks : (typeCheck (.str "port") (.num q) = true ↔ 1 ≤ q ∧ q ≤ 65535)
        ∧ (OptionType.port.check (.num q) = true ↔ (q.isInt = true ∧ 0 ≤ q) ∧ q ≤ 65535) := by
      simp [typeCheck, isPort, OptionType.check]
    have hsplits : Splits "port" (.num q) ↔ q = 0 ∨ q.isInt = false ∧ 1 ≤ q ∧ q ≤ 65535 := by
      simp [Splits]
    rw [hchecks.1, hchecks.2, hsplits]
    rcases hint : q.isInt
    case false =>
      simp only [Bool.false_eq_true, false_and, iff_false, true_and, not_or]
      refine ⟨fun hout => ⟨?_, hout⟩, And.right⟩
      rintro rfl
      cases hint
    case true =>
      simp only [true_and, Bool.true_eq_false, false_and, or_false]
      constructor
      · rintro hiff rfl
        exact absurd (hiff.2 ⟨le_rfl, by norm_num⟩).1 (by norm_num)
      · intro hne
        exact ⟨fun h => ⟨zero_le_one.trans h.1, h.2⟩,
          fun h => ⟨one_le_of_isInt hint h.1 hne, h.2⟩⟩
  all_goals simp [typeCheck, OptionType.check, isPort, Splits]

theorem tables_agree {tag : String} (h : tag ∈ validTypes) (hne : tag ≠ "enum") :
    ∃ nixType, typeMap.lookup tag = some nixType ∧ ∀ v,
      (typeCheck (.str tag) v = true ↔ nixType.check v = true) ↔ ¬ Splits tag v := by
  simp only [validTypes, List.mem_cons, List.not_mem_nil, or_false] at h
  rcases h with rfl | rfl | rfl | rfl | rfl | rfl | rfl | rfl | rfl | rfl
  case inr.inr.inl => exact ⟨_, rfl, fun v => number_agrees⟩
  case inr.inr.inr.inl => exact ⟨_, rfl, fun v => port_agrees⟩
  case inr.inr.inr.inr.inr.inr.inr.inr.inr => exact absurd rfl hne
  all_goals
    refine ⟨_, rfl, fun v => iff_of_true ?_ (not_splits (by decide) (by decide))⟩
    cases v <;> simp [typeCheck, OptionType.check, Value.isBool, Value.isString, Value.isArray,
      Value.isRecord, Value.isNull, isArrayOfString, nullable]

end Tables

section Interpreters

/-- The validator entry made from `fd` accepts `v`. -/
def NickelAccepts (name : String) (fd v : Value) : Prop :=
  (mkValidatorEntry name fd).check v = .ok true

/-- The type of the option made from `fd` accepts `v`. -/
def NixAccepts (name : String) (fd v : Value) : Prop :=
  ∃ nixType, (mkOpt name fd).type = .ok nixType ∧ nixType.check v = true

/-- Both interpreters ask for the field, or neither does. -/
def RequiredAlike (name : String) (fd : Value) : Prop :=
  (mkValidatorEntry name fd).required = .ok (mkOpt name fd).required

variable {fields : List (String × Value)} {tag : String}

theorem nickelAccepts_iff (h : WellTyped fields tag) (hne : tag ≠ "enum") :
    NickelAccepts name (.record fields) v ↔ typeCheck (.str tag) v = true := by
  simp [NickelAccepts, mkValidatorEntry, Value.field, h.type, descriptorCheck, hne]

theorem nickelAccepts_enum {elems : List Value} (h : WellTyped fields "enum")
    (hvalues : fields.lookup "values" = some (.arr elems)) :
    NickelAccepts name (.record fields) v ↔ v.isString = true ∧ v.elem elems = true := by
  cases hv : v.isString <;> simp [NickelAccepts, mkValidatorEntry, Value.field, h.type,
    descriptorCheck, hvalues, Value.elements, both, hv]

theorem nixAccepts_iff (h : WellTyped fields tag) (hne : tag ≠ "enum") {nixType : OptionType}
    (hlookup : typeMap.lookup tag = some nixType) :
    NixAccepts name (.record fields) v ↔ nixType.check v = true := by
  simp [NixAccepts, mkOpt, Value.field, h.type, hne, Value.text, hlookup]

theorem nixAccepts_enum {elems : List Value} (h : WellTyped fields "enum")
    (hvalues : fields.lookup "values" = some (.arr elems)) :
    NixAccepts name (.record fields) v ↔ v.elem elems = true := by
  simp [NixAccepts, mkOpt, Value.field, h.type, hvalues, Value.elements, OptionType.check]

/-- A value that equals a string is one. -/
theorem isString_of_elem {elems : List Value} (hall : elems.all Value.isString = true)
    (h : v.elem elems = true) : v.isString = true := by
  rw [Value.elem, List.any_eq_true] at h
  obtain ⟨elem, he, hsame⟩ := h
  have hstring := List.all_eq_true.1 hall elem he
  rcases elem with _ | _ | _ | s | _ | _ | _
  case str =>
    rw [Value.same_str_right.1 hsame]
    rfl
  all_goals exact nomatch hstring

theorem requiredAlike_record : RequiredAlike name (.record fields) := by
  simp [RequiredAlike, mkValidatorEntry, mkOpt, NixOption.required, Value.hasField, Value.attr]

/-- The two interpreters of a descriptor agree on exactly the values that its tag does not split.
They always ask for the same fields. -/
theorem interpreters_agree_iff (hfd : Accepts fieldDescriptor fd) :
    ((NickelAccepts name fd v ↔ NixAccepts name fd v) ∧ RequiredAlike name fd)
      ↔ ∀ tag, fd.field "type" = .ok (.str tag) → ¬ Splits tag v := by
  obtain ⟨fields, tag, rfl, h⟩ := wellTyped_of_accepts hfd
  have htype : Value.field "type" (.record fields) = .ok (.str tag) := by
    simp [Value.field, h.type]
  simp only [requiredAlike_record, and_true, htype, Except.ok.injEq, Value.str.injEq,
    forall_eq']
  by_cases henum : tag = "enum"
  case pos =>
    subst henum
    obtain ⟨elems, hvalues, hall⟩ := h.values rfl
    rw [nickelAccepts_enum h hvalues, nixAccepts_enum h hvalues]
    refine iff_of_true ⟨And.right, fun he => ⟨isString_of_elem hall he, he⟩⟩ ?_
    exact not_splits (by decide) (by decide)
  case neg =>
    obtain ⟨nixType, hlookup, hagree⟩ := tables_agree h.known henum
    rw [nickelAccepts_iff h henum, nixAccepts_iff h henum hlookup]
    exact hagree v

/-- A descriptor of the bare type `tag`. -/
def bare (tag : String) : Value := .record [("type", .str tag)]

/-- Nickel lets a fraction through as a number, and Nix zero as a port. -/
theorem fraction_and_zero_split :
    (Accepts fieldDescriptor (bare "number")
      ∧ NickelAccepts "ratio" (bare "number") (.num (1 / 2))
      ∧ ¬ NixAccepts "ratio" (bare "number") (.num (1 / 2)))
    ∧ (Accepts fieldDescriptor (bare "port")
      ∧ ¬ NickelAccepts "port" (bare "port") (.num 0)
      ∧ NixAccepts "port" (bare "port") (.num 0)) := by
  refine ⟨⟨rfl, rfl, ?_⟩, rfl, ?_, _, rfl, by decide +kernel⟩
  · rintro ⟨_, ⟨⟩, h⟩
    exact absurd h (by decide +kernel)
  · intro h
    exact absurd (Except.ok.inj h) (by decide +kernel)

theorem barePort_agrees :
    ((NickelAccepts "port" (bare "port") (.num 8080) ↔ NixAccepts "port" (bare "port") (.num 8080))
      ∧ RequiredAlike "port" (bare "port"))
    ↔ ∀ tag, (bare "port").field "type" = .ok (.str tag) → ¬ Splits tag (.num 8080) :=
  interpreters_agree_iff rfl

end Interpreters

end OnixCore.ModuleSchema
