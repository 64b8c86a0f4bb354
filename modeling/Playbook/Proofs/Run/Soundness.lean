import Playbook.Proofs.Registry.Order
import Playbook.Proofs.Run.InStep
import Playbook.Proofs.Schema

/-! # Loaded playbooks do not go wrong

A playbook is checked when it is loaded: its targets and callees exist, it writes no reserved key, it
passes the arguments that its callees declare, and its schemas are schemas. `Error.isFault` names the
errors that these checks rule out, together with those of a hierarchy out of step with the walk. No run of
a loaded playbook fails with a fault, at whatever depth of calls, unless its host does. What a schema is and what is
said about values that violate it is up to the compiler of schemas; it is only asked not to speak of a value as
if it were a schema.

Main statements: `tolerates_sound` says that no cause of which a walk may fail is a fault, and
`Engine.not_isFault_of_run` that no run fails with one.
-/

namespace Playbook

variable {σ : Type} {e : Engine σ} {caller : Caller}

/-- A fault: an error that says that the playbook, and not the world, is wrong. -/
def Error.isFault : Error → Bool
  | .nodeNotFound .. => true
  | .playbookNotFound _ => true
  | .argumentMismatch .. => true
  | .reservedKey _ => true
  | .threadNotFound _ => true
  | .noOpenSession => true
  | .depthExceeded .. => true
  | .schemaViolation reason => Schema.complaint.toList.isPrefixOf reason.toList
  | _ => false

/-- An error that is no fault. -/
def Error.IsSound (cause : Error) : Prop := cause.isFault = false

/-- If the host fails with no fault, then none of the causes of which a walk may fail is one. -/
theorem tolerates_sound (hhost : e.host.FailsWith Error.IsSound) (hspeaks : e.schemas.SpeaksOfValues) :
    Tolerates e Error.IsSound where
  host := hhost
  missing := fun _ => rfl
  stepLimit := fun _ => rfl
  callDepth := fun _ => rfl
  noJson := by
    rw [Error.IsSound]
    decide
  violated := by
    intro schema check value hc
    refine Bool.eq_false_iff.2 ?_
    intro hfault
    exact hspeaks.join hc value (List.isPrefixOf_iff_prefix.1 hfault)

namespace Engine

/-- Arguments that are declared are not reserved, so they are bound. -/
theorem bindArguments_ne_reservedKey (name : String) (args : Dict Json) (key : String) :
    e.bindArguments name args ≠ .error (.reservedKey key) := by
  intro hb
  rcases Checked.bind_eq_error.1 hb with hr | ⟨d, _, hrest⟩
  · rw [Registry.require] at hr
    split at hr <;> cases hr
  · split at hrest
    · cases hrest
    · rename_i hargs
      rcases Region.exists_ofArgs (d.unreserved_of_checkArguments hargs) with ⟨region, hregion⟩
      -- parameters are refused at loading when their names are reserved
      rw [hregion] at hrest
      cases hrest

/-- Loaded playbooks do not go wrong. If they were built with the schemas of the engine, as those are that it has read
from texts, the messages about answers do not read like complaints about schemas, and the host fails with no fault,
then no node that a run dispatches fails with one, no walk of the run does, at whatever depth of calls, and neither
does the run, once its playbook is found and its arguments are bound; and arguments are never refused for a reserved
key. -/
theorem not_isFault_of_run (caller : Caller) {ds : List Definition}
    (hbuilt : ∀ d ∈ ds, d.BuiltBy e.schemas) (hreg : Registry.ofDefinitions ds = .ok e.playbooks)
    (hspeaks : e.schemas.SpeaksOfValues) (hinj : Function.Injective e.supply)
    (hhost : e.host.FailsWith fun c => c.isFault = false)
    {w : World σ} (hw : Settled e w) (name : String) (args : Dict Json) :
    (∀ bound cause, e.bindArguments name args = .ok bound →
      (e.run caller name args w).1 = .error cause → cause.isFault = false) ∧
    (∀ p, e.Visited caller name args w p →
      (∀ node cause, p.Dispatches e node → (p.outcome e caller node).1 = .error cause →
        cause.isFault = false) ∧
      ∀ cause, (p.rest e caller).1 = .error cause → cause.isFault = false) ∧
    ∀ key, e.bindArguments name args ≠ .error (.reservedKey key) := by
  have ht : Tolerates e Error.IsSound := tolerates_sound hhost hspeaks
  have hok : NodesOk e Error.IsSound :=
    nodesOk_of_linked ht (Registry.linked_of_ofDefinitions hreg)
      fun name d hd => hbuilt d (Registry.mem_of_ofDefinitions hreg hd)
  refine ⟨?_, fun p hv => ⟨?_, ?_⟩, bindArguments_ne_reservedKey name args⟩
  · intro bound cause hb hfailed
    rcases bound with ⟨d, region⟩
    have hends : Exec.Ends (e.run caller name args) w _ _ := run_ends hinj hw name args
    have hrun : e.run caller name args w = (.error cause, (e.run caller name args w).2) :=
      Prod.ext hfailed rfl
    rw [Exec.ends_of_error hrun] at hends
    rcases hends with ⟨_, w₁, hstart⟩
    rw [start_eq_rest hb] at hstart
    have hv : e.Visited caller name args w _ := ⟨d, region, hb, .refl⟩
    have hu := upright_of_run hinj hw hv
    rcases hu.walk_ends hinj hok ht hstart with ⟨_, _, _, hsound⟩
    exact hsound cause rfl
  · intro node cause hdisp hfailed
    have hu := upright_of_run hinj hw hv
    have hends := hu.node_ends caller hinj hok ht hdisp
    have hx : p.outcome e caller node = (.error cause, (p.outcome e caller node).2) :=
      Prod.ext hfailed rfl
    rw [Exec.ends_of_error hx] at hends
    exact hends.2.1
  · intro cause hfailed
    have hu := upright_of_run hinj hw hv
    rcases hu.walk_ends hinj hok ht rfl with ⟨_, _, _, hsound⟩
    exact hsound cause hfailed

end Engine

theorem Outing.host_sound : Outing.host.FailsWith Error.IsSound where
  generate := fun _ _ _ h => by cases h; rfl
  useTool := fun _ _ _ _ _ h => by cases h; rfl
  append := fun _ _ _ h => by cases h; rfl
  recollect := fun _ _ _ _ h => by cases h; rfl
  deliver := fun _ _ _ _ h => by cases h; rfl

theorem Outing.built : ∀ d ∈ [visit, outing], d.BuiltBy engine.schemas := by
  intro d hd
  rcases List.mem_pair.1 hd with rfl | rfl <;> rfl

theorem Outing.run_not_isFault :
    ∃ cause, (Outing.engine.run Outing.traveller "outing" .empty Outing.world).1 = .error cause ∧
      cause.isFault = false := by
  rcases Engine.not_isFault_of_run Outing.traveller Outing.built Outing.playbooks_eq
    Schema.speaksOfValues_truthValues Hierarchy.unary_injective Outing.host_sound Outing.settled "outing" .empty
    with ⟨hrun, _⟩
  exact ⟨_, rfl, hrun (Outing.outing, .empty) _ rfl rfl⟩

end Playbook
