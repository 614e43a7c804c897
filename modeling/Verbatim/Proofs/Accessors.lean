import Mathlib.Data.List.Induction
import Mathlib.Data.List.Nodup
import Verbatim.Grammar.Shape

/-!
# Which accessors are told apart

The accessors of a node have different names. Two of them for a single child ask for different rules, and
neither asks for a direct variant of the family that the other asks for. Variants of variants are not looked
at, nor whether two families share one.
-/
namespace Verbatim.Grammar

variable {fs : List Field}

/-! ## First of a name -/

theorem firstOfName_append (f : Field) : firstOfName (fs ++ [f]) =
    if (firstOfName fs).any (·.name == f.name) then firstOfName fs else firstOfName fs ++ [f] := by
  rw [firstOfName, List.foldl_append]
  rfl

theorem nodup_names_firstOfName (fs : List Field) : ((firstOfName fs).map (·.name)).Nodup := by
  induction fs using List.reverseRecOn with
  | nil => exact List.nodup_nil
  | append_singleton fs f ih =>
    rw [firstOfName_append]
    split
    · exact ih
    · next new =>
      rw [List.map_append, List.nodup_append]
      refine ⟨ih, List.nodup_singleton _, fun a memA b memB same => new ?_⟩
      obtain ⟨kept, member, rfl⟩ := List.mem_map.mp memA
      rw [List.map_singleton, List.mem_singleton] at memB
      exact List.any_eq_true.mpr ⟨kept, member, beq_iff_eq.mpr (same.trans memB)⟩

theorem firstOfName_sublist (fs : List Field) : (firstOfName fs).Sublist fs := by
  induction fs using List.reverseRecOn with
  | nil => exact List.Sublist.refl _
  | append_singleton fs f ih =>
    rw [firstOfName_append]
    split
    · exact ih.trans (List.sublist_append_left fs [f])
    · exact ih.append (List.Sublist.refl [f])

/-! ## Single children of different rules -/

/-- Two fields for single children of one rule. -/
def Field.Twins (f f' : Field) : Prop := ∃ rule, f.single? = some rule ∧ f'.single? = some rule

theorem withoutTwins_pairwise (fs : List Field) : (withoutTwins fs).Pairwise fun f f' => ¬ f.Twins f' := by
  rw [List.pairwise_iff_forall_sublist]
  rintro f f' sub ⟨rule, single, single'⟩
  have kept : f ∈ withoutTwins fs := sub.subset List.mem_cons_self
  have few := (List.mem_filter.mp kept).2
  rw [single] at few
  -- Both fields are among those that are counted.
  have two := (sub.trans (List.filter_sublist ..)).countP_le (p := (·.single? == some rule))
  simp only [decide_eq_true_eq] at few
  simp [single, single'] at two
  omega

/-! ## Families and their variants -/

/-- Whether a rule is a variant of the family that another rule is. -/
def IsVariant (families : List Family) (rule of : Text) : Prop :=
  ∃ family, families.find? (·.name == of) = some family ∧ rule ∈ family.variants

theorem not_isVariant_of_mem {families : List Family} {f f' : Field} {rule rule' : Text}
    (member : f ∈ withoutVariants families fs) (single : f.single? = some rule) (member' : f' ∈ fs)
    (single' : f'.single? = some rule') : ¬ IsVariant families rule rule' := by
  rintro ⟨family, found, variant⟩
  have kept := (List.mem_filter.mp member).2
  rw [single] at kept
  simp only [Bool.not_eq_true', List.any_eq_false] at kept
  refine kept family ?_ (List.contains_iff_mem.mpr variant)
  exact List.mem_filterMap.mpr ⟨rule', List.mem_filterMap.mpr ⟨f', member', single'⟩, found⟩

/-! ## The accessors of a node -/

/-- Fields that differ in name and, if both are for single children, in their rules, none of which is a
direct variant of another. -/
structure Apart (families : List Family) (fs : List Field) : Prop where
  names : (fs.map (·.name)).Nodup
  rules : fs.Pairwise fun f f' => ¬ f.Twins f'
  variants : ∀ f ∈ fs, ∀ f' ∈ fs, ∀ rule rule', f.single? = some rule → f'.single? = some rule' →
    ¬ IsVariant families rule rule'

theorem withoutVariants_sublist (families : List Family) (fs : List Field) :
    (withoutVariants families fs).Sublist fs :=
  List.filter_sublist ..

/-- The fields of a node are among those that its rule gives rise to, and they are apart. -/
theorem nodeShape_apart (g : Grammar) (d : Definition) :
    (nodeShape g d).fields.Sublist (fieldsOf g none d.body) ∧ Apart (families g) (nodeShape g d).fields := by
  have sub := withoutVariants_sublist (families g) (withoutTwins (firstOfName (fieldsOf g none d.body)))
  have twins : (withoutTwins (firstOfName (fieldsOf g none d.body))).Sublist _ := List.filter_sublist ..
  refine ⟨(sub.trans twins).trans (firstOfName_sublist _), ?_, (withoutTwins_pairwise _).sublist sub, ?_⟩
  · exact ((sub.trans twins).map _).nodup (nodup_names_firstOfName _)
  · intro f member f' member' rule rule' single single'
    exact not_isVariant_of_mem member single (sub.subset member') single'

end Verbatim.Grammar
