import OnixCore.ModuleSchema.Contracts

/-!
# What the schema contracts check

`RoleSchema` and `Schema` bind the application of `FieldDescriptor` to a name that nothing uses, so
they look at the shape of a value only, and a malformed descriptor passes
(`schemaContracts_iff_wellFormed`).
-/

namespace OnixCore.ModuleSchema

variable {fd v : Value}

/-- A contract made from a validator accepts what the validator says `'Ok` to. -/
def Accepts (validator : Value → Eval Verdict) (v : Value) : Prop := validator v = .ok .ok

/-- A record whose fields all satisfy `P`. -/
def RecordOf (P : Value → Prop) (v : Value) : Prop :=
  ∃ fields, v = .record fields ∧ ∀ entry ∈ fields, P entry.2

def IsRoleSchema : Value → Prop := RecordOf (Accepts fieldDescriptor)

def IsSchema : Value → Prop := RecordOf IsRoleSchema

/-- Some descriptor of the role does not satisfy `FieldDescriptor`. -/
def HasMalformed (role : Value) : Prop :=
  ∃ fields, role = .record fields ∧ ∃ entry ∈ fields, ¬ Accepts fieldDescriptor entry.2

section Shape

/-- A role is accepted when it is a record. -/
theorem accepts_roleSchema : Accepts roleSchema v ↔ RecordOf (fun _ => True) v := by
  cases v <;> simp [Accepts, RecordOf, roleSchema, Verdict.ofErrors, Verdict.isError]

theorem roleErrors_eq_nil {name : String} :
    roleErrors name v = [] ↔ RecordOf (fun _ => True) v := by
  cases v <;> simp [roleErrors, RecordOf]

theorem ofErrors_eq_ok {errors : List Verdict} (h : .ok ∉ errors) :
    Verdict.ofErrors errors = .ok ↔ errors = [] := by
  rcases errors with _ | ⟨_ | ⟨message, notes⟩, errors⟩
  · exact ⟨fun _ => rfl, fun _ => rfl⟩
  · exact absurd List.mem_cons_self h
  · simp [Verdict.ofErrors]

theorem ok_notMem_roleErrors {name : String} : .ok ∉ roleErrors name v := by
  cases v <;> simp [roleErrors]

/-- A schema is accepted when it is a record of records. -/
theorem accepts_schema : Accepts schema v ↔ RecordOf (RecordOf fun _ => True) v := by
  cases v
  case record roles =>
    have hok : .ok ∉ roles.flatMap fun entry => roleErrors entry.1 entry.2 := by
      rw [List.mem_flatMap]
      rintro ⟨entry, -, h⟩
      exact ok_notMem_roleErrors h
    simp only [Accepts, schema, pure_eq_ok, ofErrors_eq_ok hok, List.flatMap_eq_nil_iff,
      roleErrors_eq_nil, RecordOf, Value.record.injEq, exists_eq_left']
  all_goals simp [Accepts, schema, RecordOf]

theorem RecordOf.imp {P Q : Value → Prop} (hPQ : ∀ v, P v → Q v) (h : RecordOf P v) :
    RecordOf Q v := by
  obtain ⟨fields, rfl, hall⟩ := h
  exact ⟨fields, rfl, fun entry he => hPQ _ (hall entry he)⟩

end Shape

/-- A record is a role schema exactly when it has no malformed descriptor. -/
theorem isRoleSchema_iff (h : RecordOf (fun _ => True) v) : IsRoleSchema v ↔ ¬ HasMalformed v := by
  obtain ⟨fields, rfl, -⟩ := h
  constructor
  · rintro ⟨_, ⟨⟩, hall⟩ ⟨_, ⟨⟩, entry, he, hbad⟩
    exact hbad (hall entry he)
  · intro hnone
    refine ⟨fields, rfl, fun entry he => ?_⟩
    by_contra hbad
    exact hnone ⟨fields, rfl, entry, he, hbad⟩

/-- `RoleSchema` decides role schemas, and `Schema` schemas, on the values that are not of the right
shape or hold no malformed descriptor, and on no others. -/
theorem schemaContracts_iff_wellFormed (v : Value) :
    ((Accepts roleSchema v ↔ IsRoleSchema v) ↔ ¬ HasMalformed v)
    ∧ ((Accepts schema v ↔ IsSchema v)
      ↔ (RecordOf (RecordOf fun _ => True) v → RecordOf (fun role => ¬ HasMalformed role) v)) := by
  constructor
  · rw [accepts_roleSchema]
    constructor
    · rintro hiff ⟨fields, rfl, hbad⟩
      have hrecord : RecordOf (fun _ => True) (.record fields) := ⟨fields, rfl, fun _ _ => trivial⟩
      exact (isRoleSchema_iff hrecord).1 (hiff.1 hrecord) ⟨fields, rfl, hbad⟩
    · intro hnone
      exact ⟨fun h => (isRoleSchema_iff h).2 hnone, RecordOf.imp fun _ _ => trivial⟩
  · rw [accepts_schema]
    constructor
    · intro hiff hrecord
      exact (hiff.1 hrecord).imp fun role hrole =>
        (isRoleSchema_iff (hrole.imp fun _ _ => trivial)).1 hrole
    · intro hnone
      refine ⟨fun hrecord => ?_, RecordOf.imp fun role => RecordOf.imp fun _ _ => trivial⟩
      obtain ⟨roles, rfl, hroles⟩ := hrecord
      obtain ⟨_, ⟨⟩, hgood⟩ := hnone ⟨roles, rfl, hroles⟩
      exact ⟨roles, rfl, fun entry he => (isRoleSchema_iff (hroles entry he)).2 (hgood entry he)⟩

/-- A role with one field, of a type that does not exist. -/
def mistypedRole : Value := .record [("port", .record [("type", .str "prot")])]

theorem mistypedSchema_accepted :
    Accepts roleSchema mistypedRole ∧ ¬ IsRoleSchema mistypedRole
    ∧ Accepts schema (.record [("default", mistypedRole)])
    ∧ ¬ IsSchema (.record [("default", mistypedRole)]) := by
  have hbad : ¬ IsRoleSchema mistypedRole := by
    rintro ⟨_, ⟨⟩, hall⟩
    exact nomatch (hall _ List.mem_cons_self : Accepts fieldDescriptor _)
  refine ⟨rfl, hbad, rfl, ?_⟩
  rintro ⟨_, ⟨⟩, hall⟩
  exact hbad (hall _ List.mem_cons_self)

end OnixCore.ModuleSchema
