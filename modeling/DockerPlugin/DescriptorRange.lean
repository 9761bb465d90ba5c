import DockerPlugin.ConnectionRuns

namespace DockerPlugin
open Octets

/-- `FD_SETSIZE`. -/
def fdSetsize : Int := 1024

/-- Whether a connection arrives in a round and outlives its first `recv`. -/
def Round.Keeps {κ : Type} (cls : ConnectionClass κ) (l : Int) (r : Round) : Prop :=
  r.reports l = true ∧ r.Admits cls

namespace UdsServer
variable {κ : Type} {cls : ConnectionClass κ} {l : Int}

/-- What a server has passed to `FD_SET` or `FD_ISSET`. -/
def Passes (p : Process) (fd : Int) : Prop := .fdSet fd ∈ p.history ∨ .fdIsset fd ∈ p.history

/-- Everything that was passed is a descriptor that the set has room for. -/
def WithinSet (s : UdsServer κ) : Prop := ∀ fd, Passes s.process fd → 0 ≤ fd ∧ fd < fdSetsize

theorem passes_foreign {p : Process} {events : List ServerEvent}
    (none : ∀ fd, .fdSet fd ∉ events ∧ .fdIsset fd ∉ events) (fd : Int) :
    Passes (p.note events) fd ↔ Passes p fd := by
  simp [Passes, none fd]

theorem passes_ended {p : Process} {n : Nat} {fd : Int} {owner : Option Owner} {tail : List ServerEvent}
    (ending : Endings n fd owner tail) (place : Int) : Passes (p.ended n fd tail) place ↔ Passes p place := by
  rcases ending with rfl | rfl <;> simp [Passes, Process.ended]

theorem passes_fdSet (p : Process) (fds : List Int) (fd : Int) :
    Passes (p.note (fds.map .fdSet)) fd ↔ Passes p fd ∨ fd ∈ fds := by
  simp [Passes]
  tauto

theorem passes_fdIsset (p : Process) (fd place : Int) :
    Passes (p.note [.fdIsset place]) fd ↔ Passes p fd ∨ fd = place := by
  simp [Passes, or_assoc]

/-- The loop over the table tests every descriptor of it. -/
theorem sweep_passes (cls : ConnectionClass κ) (set : List Int) (recvs : Nat → RecvResult)
    {conns : List (SocketObject κ)} (opened : ∀ con ∈ conns, 0 ≤ con.mSocket) (p : Process) :
    (∀ fd, Passes (sweep cls set recvs conns p).2 fd ↔ Passes p fd ∨ fd ∈ conns.map (·.mSocket)) ∧
      ∀ con ∈ (sweep cls set recvs conns p).1, con.mSocket ∈ conns.map (·.mSocket) := by
  induction conns generalizing recvs p with
  | nil => simp [sweep]
  | cons con rest ih =>
    obtain ⟨here, later⟩ := List.forall_mem_cons.mp opened
    have behind : ∀ (recvs : Nat → RecvResult) (p' : Process),
        (∀ fd, Passes p' fd ↔ Passes p fd ∨ fd = con.mSocket) →
        ∀ fd, Passes (sweep cls set recvs rest p').2 fd ↔ Passes p fd ∨ fd ∈ (con :: rest).map (·.mSocket) := by
      intro recvs p' same fd
      rw [(ih recvs later p').1 fd, same fd, List.map_cons, List.mem_cons, or_assoc]
    have among : ∀ (recvs : Nat → RecvResult) (p' : Process), ∀ other ∈ (sweep cls set recvs rest p').1,
        other.mSocket ∈ (con :: rest).map (·.mSocket) := fun recvs p' other member =>
      List.mem_cons_of_mem _ ((ih recvs later p').2 other member)
    rcases sweep_cases cls set recvs con rest p here with
      ⟨_, next, rfl, same⟩ | ⟨_, coming, ⟨self, next, rfl, kept⟩ | ⟨tail, ending, erased⟩⟩
    · rw [same]
      exact ⟨behind _ _ fun fd => passes_fdIsset p fd con.mSocket,
        List.forall_mem_cons.mpr ⟨List.mem_cons_self, among _ _⟩⟩
    · rw [kept]
      refine ⟨behind _ _ fun fd => ?_, List.forall_mem_cons.mpr ⟨List.mem_cons_self, among _ _⟩⟩
      rw [passes_foreign (by simp), passes_fdIsset]
    · rw [erased]
      refine ⟨behind _ _ fun fd => ?_, among _ _⟩
      rw [passes_ended ending, passes_fdIsset]

/-- A connection that may come tests nothing, and is in the table if it is admitted. -/
theorem acceptConnection_passes (cls : ConnectionClass κ) {r : Round} {s : UdsServer κ} (permits : s.Permits r) :
    (∀ fd, Passes (acceptConnection cls r s).1.process fd ↔ Passes s.process fd) ∧
    (∀ fd, fd ∈ (acceptConnection cls r s).1.mConnections.map (·.mSocket) ↔
      fd ∈ s.mConnections.map (·.mSocket) ∨ r.Admits cls ∧ fd = r.accept) ∧
    (r.Admits cls → 0 ≤ r.accept) := by
  rcases acceptConnection_cases cls permits with
    ⟨out, same⟩ | ⟨nonneg, free, recvs, ⟨out, refused⟩ | ⟨self, ⟨comes, kept⟩ | ⟨out, tail, ending, ended⟩⟩⟩
  · rw [same]
    exact ⟨fun _ => Iff.rfl, by simp [out], fun comes => absurd comes out⟩
  · rw [refused]
    refine ⟨fun fd => ?_, by simp [out], fun _ => nonneg⟩
    simp [Passes, Process.refused, Process.accept, Process.close]
  · rw [kept]
    refine ⟨fun fd => ?_, by simp [comes], fun _ => nonneg⟩
    simp [Passes, Process.admitted, Process.accept]
  · rw [ended]
    refine ⟨fun fd => (passes_ended ending fd).trans ?_, by simp [out], fun _ => nonneg⟩
    simp [Passes, Process.admitted, Process.accept]

theorem tested_passes (s : UdsServer κ) (fd : Int) :
    Passes s.tested.process fd ↔ Passes s.process fd ∨ fd ∈ s.passed := by
  have first : fd = s.mSocket → fd ∈ s.passed := fun same => same ▸ List.mem_cons_self
  rw [tested, passes_fdIsset, polled, passes_fdSet]
  tauto

/-- The same at the point of `run` where the loop over the table begins. -/
theorem welcomed_passes (cls : ConnectionClass κ) {r : Round} {ready : Int → Bool} {s : UdsServer κ}
    (here : s.mSocket = l) (permits : s.Permits r) (chosen : r.select = .leaves ready) :
    (∀ fd, Passes (s.welcomed cls r ready).1.process fd ↔ Passes s.process fd ∨ fd ∈ s.passed) ∧
    (∀ fd, fd ∈ (s.welcomed cls r ready).1.mConnections.map (·.mSocket) ↔
      fd ∈ s.mConnections.map (·.mSocket) ∨ r.Keeps cls l ∧ fd = r.accept) ∧
    (r.Keeps cls l → 0 ≤ r.accept) := by
  have asked : s.mSocket ∈ s.left ready ↔ r.reports l = true := by
    rw [mem_left, Round.reports, chosen, here]
    exact and_iff_right (here ▸ List.mem_cons_self)
  obtain ⟨same, table, nonneg⟩ := acceptConnection_passes cls (s := s.tested) permits
  unfold welcomed
  split
  · rename_i listens
    have keeps : r.Keeps cls l ↔ r.Admits cls := and_iff_right (asked.mp listens)
    rw [keeps]
    exact ⟨fun fd => (same fd).trans (s.tested_passes fd), table, nonneg⟩
  · rename_i silent
    have keeps : ¬ r.Keeps cls l := fun keeps => silent (asked.mpr keeps.1)
    exact ⟨s.tested_passes, by simp [keeps, tested, polled], fun comes => absurd comes keeps⟩

/-- One call of `run` tests the listening socket, the table, and the connection it keeps. -/
theorem run_passes (cls : ConnectionClass κ) {r : Round} {s : UdsServer κ} (here : s.mSocket = l)
    (permits : s.Permits r) (opened : ∀ fd ∈ s.mConnections.map (·.mSocket), 0 ≤ fd) :
    (∀ fd, Passes (s.run cls r).2.process fd ↔
      Passes s.process fd ∨ fd ∈ s.passed ∨ r.Keeps cls l ∧ fd = r.accept) ∧
    (∀ fd ∈ (s.run cls r).2.mConnections.map (·.mSocket),
      fd ∈ s.mConnections.map (·.mSocket) ∨ r.Keeps cls l ∧ fd = r.accept) ∧
    (r.Keeps cls l → 0 ≤ r.accept) := by
  by_cases idle : ∀ ready, r.select ≠ .leaves ready
  · obtain ⟨same, silent⟩ := run_idle cls s idle
    have alone : ¬ r.Keeps cls l := fun keeps => by simp [silent, Round.Keeps] at keeps
    rw [same]
    refine ⟨fun fd => ?_, fun fd member => Or.inl member, fun keeps => absurd keeps alone⟩
    simp only [alone, false_and, or_false]
    exact passes_fdSet s.process s.passed fd
  · push Not at idle
    obtain ⟨ready, chosen⟩ := idle
    obtain ⟨same, table, nonneg⟩ := welcomed_passes cls here permits chosen
    have open' : ∀ con ∈ (s.welcomed cls r ready).1.mConnections, 0 ≤ con.mSocket := by
      intro con member
      rcases (table con.mSocket).mp (List.mem_map_of_mem member) with old | ⟨keeps, new⟩
      · exact opened con.mSocket old
      · exact new ▸ nonneg keeps
    obtain ⟨passes, among⟩ := sweep_passes cls (s.left ready) (s.welcomed cls r ready).2 open'
      (s.welcomed cls r ready).1.process
    rw [run_leaves cls s chosen]
    refine ⟨fun fd => ?_, fun fd member => ?_, nonneg⟩
    · have known : fd ∈ s.mConnections.map (·.mSocket) → fd ∈ s.passed := List.mem_cons_of_mem _
      refine (passes fd).trans ?_
      rw [same fd, table fd]
      tauto
    · obtain ⟨con, kept, rfl⟩ := List.mem_map.mp member
      exact (table con.mSocket).mp (among con kept)

theorem Runs.listening_nonneg {rounds : List Round} {s : UdsServer κ} (runs : Runs cls l rounds s) : 0 ≤ l := by
  induction runs with
  | bound nonneg => exact nonneg
  | next _ _ ih => exact ih

/-- What a server has passed so far: the listening socket, and every connection it has ever kept. -/
theorem Runs.passes {rounds : List Round} {s : UdsServer κ} (runs : Runs cls l rounds s) :
    (∀ fd, Passes s.process fd ↔ (rounds ≠ [] ∧ fd = l) ∨ ∃ r ∈ rounds, r.Keeps cls l ∧ fd = r.accept) ∧
      (∀ fd ∈ s.mConnections.map (·.mSocket), ∃ r ∈ rounds, r.Keeps cls l ∧ fd = r.accept) ∧
      ∀ r ∈ rounds, r.Keeps cls l → 0 ≤ r.accept := by
  induction runs with
  | @bound path s nonneg success =>
    rw [bind_state success]
    simp [Passes, Process.opened]
  | @next rounds r s runs permits ih =>
    obtain ⟨before, table, nonneg⟩ := ih
    obtain ⟨here, settled⟩ := runs.settled
    have opened : ∀ fd ∈ s.mConnections.map (·.mSocket), 0 ≤ fd := by
      intro fd member
      obtain ⟨con, inside, rfl⟩ := List.mem_map.mp member
      exact (settled.opened con inside).1
    obtain ⟨passes, among, new⟩ := run_passes cls here permits opened
    refine ⟨fun fd => ?_, fun fd member => ?_, ?_⟩
    · rw [passes fd, before fd, passed, List.mem_cons, here]
      simp only [List.mem_append, List.mem_singleton, or_and_right, exists_or, exists_eq_left, ne_eq,
        List.append_eq_nil_iff, List.cons_ne_nil, and_false, not_false_eq_true, true_and]
      have known := table fd
      generalize (∃ r, r ∈ rounds ∧ r.Keeps cls l ∧ fd = r.accept) = kept at known ⊢
      tauto
    · rcases among fd member with old | ⟨keeps, same⟩
      · obtain ⟨earlier, inside, chosen⟩ := table fd old
        exact ⟨earlier, List.mem_append_left _ inside, chosen⟩
      · exact ⟨r, List.mem_append_right _ List.mem_cons_self, keeps, same⟩
    · exact List.forall_mem_append.mpr ⟨nonneg, by simpa using new⟩

/-- Every descriptor that was passed to the set has room there exactly if every connection that was
accepted with a greater one ended with its first `recv`. -/
theorem within_set_iff {rounds : List Round} {s : UdsServer κ} (runs : Runs cls l rounds s) (low : l < fdSetsize) :
    WithinSet s ↔ ∀ r ∈ rounds, r.Keeps cls l → r.accept < fdSetsize := by
  obtain ⟨passes, _, nonneg⟩ := runs.passes
  constructor
  · intro within r member keeps
    exact (within r.accept ((passes r.accept).mpr (Or.inr ⟨r, member, keeps, rfl⟩))).2
  · intro small fd passed
    rcases (passes fd).mp passed with ⟨_, rfl⟩ | ⟨r, member, keeps, rfl⟩
    · exact ⟨runs.listening_nonneg, low⟩
    · exact ⟨nonneg r member keeps, small r member keeps⟩

theorem within_set_three :
    WithinSet afterThree ↔ ∀ r ∈ threeRounds, r.Keeps quitting 3 → r.accept < fdSetsize :=
  within_set_iff afterThree_runs (by decide)

/-- A client on descriptor 1024 who has not sent anything yet. -/
def manyClients : Round := ⟨.leaves fun _ => true, 1024, fun _ => .fails eagain⟩

theorem outside_set :
    Runs quitting 3 [manyClients]
        ((({} : UdsServer Unit).bind (bytes "/p.sock") (.ok 3) none).1.run quitting manyClients).2 ∧
      ¬ WithinSet ((({} : UdsServer Unit).bind (bytes "/p.sock") (.ok 3) none).1.run quitting manyClients).2 := by
  constructor
  · exact .next (@Runs.bound _ _ _ (bytes "/p.sock") _ (by decide) rfl) (Or.inr ⟨by decide, rfl⟩)
  · intro within
    have tested : ServerEvent.fdIsset 1024 ∈
        ((({} : UdsServer Unit).bind (bytes "/p.sock") (.ok 3) none).1.run quitting manyClients).2.process.history := by
      decide
    exact absurd (within 1024 (Or.inr tested)).2 (by decide)

end UdsServer

end DockerPlugin
