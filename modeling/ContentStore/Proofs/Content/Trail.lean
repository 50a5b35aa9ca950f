import ContentStore.Content.Trail
import ContentStore.Proofs.Gather

/-!
# What a traversal finds

A traversal that finds certain things in a value alone finds the same things with the way to the value put
in front, wherever it stands and whatever it has gathered: it adds them to what is there, in order, and
comes back to where it started. So the traversal of a whole value is known from those of its parts.
-/

namespace ContentStore

variable {σ α β : Type} {add : α → σ → σ} {below : Path → α → α}

theorem foldl_append_single (found start : List α) :
    found.foldl (fun all a => all ++ [a]) start = start ++ found := by
  rw [List.foldl_append_eq_append, ← List.flatMap_def, List.flatMap_singleton']

def Trail.after (add : α → σ → σ) (below : Path → α → α) (trail : Trail σ) (found : List α) : Trail σ :=
  { trail with gathered := found.foldl (fun s a => add (below trail.path a) s) trail.gathered }

namespace Trail

@[simp] theorem after_after (trail : Trail σ) (here there : List α) :
    (trail.after add below here).after add below there = trail.after add below (here ++ there) := by
  simp [after]

/-- A trail on which everything found is kept in a list. -/
theorem after_append (trail : Trail (List α)) (found : List α) :
    trail.after (fun a all => all ++ [a]) below found =
      { trail with gathered := trail.gathered ++ found.map (below trail.path) } := by
  rw [← foldl_append_single, List.foldl_map]
  rfl

end Trail

namespace Traversal

variable {t : Traversal σ Unit} {alone : Except StructureError (List α)}

/-- From every place and with everything gathered before, a traversal adds what is found alone and comes
back to its place; or it fails as the reading of the value alone does. -/
def Finds (add : α → σ → σ) (below : Path → α → α) (t : Traversal σ Unit)
    (alone : Except StructureError (List α)) : Prop :=
  ∀ trail, t trail = alone.map fun found => ((), trail.after add below found)

theorem finds_pure : Finds add below (pure ()) (.ok []) := fun _ => rfl

theorem finds_gatherHere {a : α} {report : Path → α} (h : ∀ path, report path = below path a) :
    Finds add below (gatherHere fun path => add (report path)) (.ok [a]) := by
  obtain rfl : report = fun path => below path a := funext h
  exact fun _ => rfl

theorem Finds.seq {next : Traversal σ Unit} {there : Except StructureError (List α)}
    (h : Finds add below t alone) (hnext : Finds add below next there) :
    Finds add below (do t; next) (alone.bind fun here => there.map (here ++ ·)) := by
  intro trail
  show (t trail).bind (fun result => next result.2) = _
  rw [h trail]
  cases alone with
  | error e => rfl
  | ok here =>
      show next (trail.after add below here) = _
      rw [hnext]
      cases there <;> simp [Except.map, Except.bind]

theorem finds_forM {parts : List β} {t : β → Traversal σ Unit}
    {alone : β → Except StructureError (List α)} (h : ∀ part ∈ parts, Finds add below (t part) (alone part)) :
    Finds add below (parts.forM t) (gather (parts.map alone)) := by
  induction parts with
  | nil => exact finds_pure
  | cons part rest ih =>
      obtain ⟨hpart, hrest⟩ := List.forall_mem_cons.1 h
      rw [List.map_cons, gather_cons_eq_bind]
      exact hpart.seq (ih hrest)

/-- Inside a part the traversal stands one step further down; after the part it stands where it was. -/
theorem Finds.inside
    (hbelow : ∀ path segment a, below path (below [segment] a) = below (path ++ [segment]) a)
    (h : Finds add below t alone) (segment : Segment) :
    Finds add below (inside segment t) (alone.map (List.map (below [segment]))) := by
  intro trail
  show ((t { trail with path := trail.path ++ [segment] }).bind fun result =>
    .ok ((), { result.2 with path := result.2.path.dropLast })) = _
  rw [h]
  cases alone with
  | error e => rfl
  | ok found => simp [Except.map, Except.bind, Trail.after, List.foldl_map, hbelow]

/-- A whole traversal gives what is found alone, added in order to the start. -/
theorem Finds.fromRoot (hroot : ∀ a, below [] a = a) (h : Finds add below t alone) (start : σ) :
    (t.fromRoot start).map Prod.snd = alone.map fun found => found.foldl (fun s a => add a s) start := by
  unfold Traversal.fromRoot StateT.run
  rw [h]
  cases alone with
  | error e => rfl
  | ok found => simp [Except.map, Trail.after, hroot, bind, Except.bind, pure, Except.pure]

/-- A whole traversal that keeps what it finds gives what is found alone. -/
theorem Finds.fromRoot_append {t : Traversal (List α) Unit} (hroot : ∀ a, below [] a = a)
    (h : Finds (fun a all => all ++ [a]) below t alone) : (t.fromRoot []).map Prod.snd = alone := by
  rw [h.fromRoot hroot]
  cases alone with
  | error e => rfl
  | ok found => exact congrArg Except.ok (foldl_append_single found [])

end Traversal

end ContentStore
