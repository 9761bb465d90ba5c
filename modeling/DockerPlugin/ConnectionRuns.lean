import DockerPlugin.ConnectionTable
import Mathlib.Data.List.Nodup

namespace DockerPlugin
open Octets

namespace Round

/-- Whether `select` reports a descriptor that it was asked for. -/
def reports (r : Round) (fd : Int) : Bool :=
  match r.select with
  | .leaves ready => ready fd
  | _ => false

end Round

namespace UdsServer
variable {κ : Type} {cls : ConnectionClass κ} {l : Int}

theorem le_foldl_max (fds : List Int) (start : Int) :
    start ≤ fds.foldl max start ∧ ∀ fd ∈ fds, fd ≤ fds.foldl max start := by
  induction fds generalizing start with
  | nil => simp
  | cons first fds ih =>
    obtain ⟨low, all⟩ := ih (max start first)
    have left : start ≤ max start first := le_max_left _ _
    have right : first ≤ max start first := le_max_right _ _
    exact ⟨left.trans low, List.forall_mem_cons.mpr ⟨right.trans low, all⟩⟩

/-- The bound given to `select` is above every descriptor of the set. -/
theorem passed_le (s : UdsServer κ) :
    ∀ fd ∈ s.passed, fd < (s.mConnections.map (·.mSocket)).foldl max s.mSocket + 1 := by
  obtain ⟨low, all⟩ := le_foldl_max (s.mConnections.map (·.mSocket)) s.mSocket
  refine List.forall_mem_cons.mpr ⟨by omega, fun fd member => ?_⟩
  have := all fd member
  omega

/-- The descriptors that `select` leaves in the set. -/
def left (s : UdsServer κ) (ready : Int → Bool) : List Int :=
  s.passed.filter fun fd => fd < (s.mConnections.map (·.mSocket)).foldl max s.mSocket + 1 && ready fd

theorem mem_left {s : UdsServer κ} {ready : Int → Bool} {fd : Int} :
    fd ∈ s.left ready ↔ fd ∈ s.passed ∧ ready fd = true := by
  simp only [left, List.mem_filter, Bool.and_eq_true, decide_eq_true_eq]
  constructor
  · rintro ⟨member, -, reported⟩
    exact ⟨member, reported⟩
  · rintro ⟨member, reported⟩
    exact ⟨member, s.passed_le fd member, reported⟩

/-- A server on the way to `select`, and past its first test of the set. -/
def polled (s : UdsServer κ) : UdsServer κ := { s with process := s.process.note (s.passed.map .fdSet) }

def tested (s : UdsServer κ) : UdsServer κ := { s.polled with process := s.polled.process.note [.fdIsset s.mSocket] }

/-- The new connection of a round, if there is one, with the results of `recv` that are left. -/
def welcomed (cls : ConnectionClass κ) (r : Round) (ready : Int → Bool) (s : UdsServer κ) :
    UdsServer κ × (Nat → RecvResult) :=
  if s.mSocket ∈ s.left ready then s.tested.acceptConnection cls r else (s.tested, r.recvs)

theorem run_idle (cls : ConnectionClass κ) {r : Round} (s : UdsServer κ) (idle : ∀ ready, r.select ≠ .leaves ready) :
    (s.run cls r).2 = s.polled ∧ ∀ fd, r.reports fd = false := by
  cases chosen : r.select with
  | fails errno => simp [run, chosen, polled, Round.reports]
  | expires => simp [run, chosen, polled, Round.reports]
  | leaves ready => exact absurd chosen (idle ready)

theorem run_leaves (cls : ConnectionClass κ) {r : Round} {ready : Int → Bool} (s : UdsServer κ)
    (chosen : r.select = .leaves ready) :
    (s.run cls r).2 =
      { (s.welcomed cls r ready).1 with
        mConnections := (sweep cls (s.left ready) (s.welcomed cls r ready).2
          (s.welcomed cls r ready).1.mConnections (s.welcomed cls r ready).1.process).1
        process := (sweep cls (s.left ready) (s.welcomed cls r ready).2
          (s.welcomed cls r ready).1.mConnections (s.welcomed cls r ready).1.process).2 } := by
  simp only [run, chosen]
  rfl

section
variable {s : UdsServer κ} (settled : Settled l s.mConnections s.process)
include settled

theorem polled_settled : Settled l s.polled.mConnections s.polled.process ∧
    ∀ n, readings s.polled.process n = readings s.process n ∧ connects s.polled.process n = connects s.process n := by
  refine ⟨settled.foreign ?_ ?_, fun n => ⟨readings_foreign ?_, connects_foreign ?_⟩⟩ <;> simp [connectionLifecycle]

theorem tested_settled : Settled l s.tested.mConnections s.tested.process ∧
    ∀ n, readings s.tested.process n = readings s.process n ∧ connects s.tested.process n = connects s.process n := by
  obtain ⟨first, counts⟩ := polled_settled settled
  refine ⟨first.foreign ?_ ?_, fun n =>
    ⟨(readings_foreign ?_).trans (counts n).1, (connects_foreign ?_).trans (counts n).2⟩⟩ <;> simp [connectionLifecycle]

theorem welcomed_settled (cls : ConnectionClass κ) {r : Round} (permits : s.Permits r) (ready : Int → Bool) :
    (s.welcomed cls r ready).1.mSocket = s.mSocket ∧
    (∃ new, (s.welcomed cls r ready).1.mConnections = s.mConnections ++ new ∧
      ∀ con ∈ new, s.process.descriptors con.mSocket = none) ∧
    Settled l (s.welcomed cls r ready).1.mConnections (s.welcomed cls r ready).1.process ∧
    ∀ n, connects s.process n ≤ connects (s.welcomed cls r ready).1.process n ∧
      readings (s.welcomed cls r ready).1.process n + connects s.process n =
        readings s.process n + connects (s.welcomed cls r ready).1.process n := by
  obtain ⟨after, counts⟩ := tested_settled settled
  unfold welcomed
  split
  · obtain ⟨here, new, next, balance⟩ := acceptConnection_settled cls (s := s.tested) permits after
    refine ⟨here, new, next, fun n => ?_⟩
    have once := balance n
    rw [(counts n).1, (counts n).2] at once
    exact once
  · refine ⟨rfl, ⟨[], by simp [tested, polled]⟩, after, fun n => ?_⟩
    rw [(counts n).1, (counts n).2]
    exact ⟨le_rfl, rfl⟩

/-- The connections that the loop over the table finds in the set are those that were there before and
were reported: a new one is not among them. -/
theorem welcomed_reported (cls : ConnectionClass κ) {r : Round} {ready : Int → Bool} (here : s.mSocket = l)
    (permits : s.Permits r) (chosen : r.select = .leaves ready) (n : Nat) :
    (s.welcomed cls r ready).1.mConnections.countP (fun con => con.serial = n ∧ con.mSocket ∈ s.left ready) =
      s.mConnections.countP fun con => con.serial = n ∧ r.reports con.mSocket = true := by
  obtain ⟨_, ⟨new, table, closedBefore⟩, _⟩ := welcomed_settled settled cls permits ready
  have reported : ∀ con ∈ s.mConnections, con.mSocket ∈ s.left ready ↔ r.reports con.mSocket = true := by
    intro con member
    rw [mem_left, Round.reports, chosen]
    exact and_iff_right (List.mem_cons_of_mem _ (List.mem_map_of_mem member))
  have old : s.mConnections.countP (fun con => con.serial = n ∧ con.mSocket ∈ s.left ready) =
      s.mConnections.countP fun con => con.serial = n ∧ r.reports con.mSocket = true :=
    List.countP_congr fun con member => by simp only [reported con member]
  have unreported : new.countP (fun con => con.serial = n ∧ con.mSocket ∈ s.left ready) = 0 := by
    refine List.countP_eq_zero.mpr fun con member => ?_
    have absent : con.mSocket ∉ s.left ready := by
      intro inside
      have free := closedBefore con member
      rcases List.mem_cons.mp (mem_left.mp inside).1 with same | among
      · rw [same, here, settled.listening] at free
        cases free
      · obtain ⟨other, known, same⟩ := List.mem_map.mp among
        rw [← same, (settled.opened other known).2] at free
        cases free
    simp [absent]
  rw [table, List.countP_append, old, unreported, Nat.add_zero]

/-- A call of `run` settles the table again. Whatever is read in it is a connection of the table that
was reported, or the new one. -/
theorem run_settled (cls : ConnectionClass κ) {r : Round} (here : s.mSocket = l) (permits : s.Permits r) :
    (s.run cls r).2.mSocket = l ∧ Settled l (s.run cls r).2.mConnections (s.run cls r).2.process ∧
      ∀ n, connects s.process n ≤ connects (s.run cls r).2.process n ∧
        readings (s.run cls r).2.process n + connects s.process n =
        readings s.process n + connects (s.run cls r).2.process n +
          s.mConnections.countP fun con => con.serial = n ∧ r.reports con.mSocket = true := by
  by_cases idle : ∀ ready, r.select ≠ .leaves ready
  · obtain ⟨same, silent⟩ := run_idle cls s idle
    obtain ⟨after, counts⟩ := polled_settled settled
    rw [same]
    refine ⟨here, after, fun n => ?_⟩
    rw [(counts n).1, (counts n).2]
    exact ⟨le_rfl, by simp [silent]⟩
  · push Not at idle
    obtain ⟨ready, chosen⟩ := idle
    obtain ⟨stays, _, next, balance⟩ := welcomed_settled settled cls permits ready
    obtain ⟨last, counts⟩ := sweep_settled cls (s.left ready) (s.welcomed cls r ready).2 []
      (s.welcomed cls r ready).1.mConnections next
    rw [run_leaves cls s chosen]
    refine ⟨stays.trans here, last, fun n => ?_⟩
    obtain ⟨read, connected⟩ := counts n
    obtain ⟨grows, before⟩ := balance n
    rw [welcomed_reported settled cls here permits chosen n] at read
    show _ ≤ connects (sweep _ _ _ _ _).2 n ∧
      readings (sweep _ _ _ _ _).2 n + _ = _ + connects (sweep _ _ _ _ _).2 n + _
    constructor <;> omega

/-- A connection that comes while the listening socket is reported, and is taken, is connected. -/
theorem run_connects (cls : ConnectionClass κ) {r : Round} (permits : s.Permits r)
    (reported : r.reports s.mSocket = true) (came : r.accept ≠ -1) (taken : (cls.createConnection r.accept).isSome = true) :
    0 < connects (s.run cls r).2.process s.process.accepts := by
  obtain ⟨self, made⟩ := Option.isSome_iff_exists.mp taken
  obtain ⟨ready, chosen⟩ : ∃ ready, r.select = .leaves ready := by
    cases chosen : r.select <;> simp [Round.reports, chosen] at reported ⊢
  have inSet : s.mSocket ∈ s.left ready := by
    rw [Round.reports, chosen] at reported
    exact mem_left.mpr ⟨List.mem_cons_self, reported⟩
  obtain ⟨_, _, next, _⟩ := welcomed_settled settled cls permits ready
  obtain ⟨_, counts⟩ := sweep_settled cls (s.left ready) (s.welcomed cls r ready).2 []
    (s.welcomed cls r ready).1.mConnections next
  have connected := acceptConnection_connects (s := s.tested) (permits.resolve_left came).1 made
  rw [run_leaves cls s chosen]
  show 0 < connects (sweep _ _ _ _ _).2 _
  rw [(counts _).2, welcomed, if_pos inSet]
  exact connected ▸ Nat.succ_pos _

end

theorem bind_state {path : Bytes} {s : UdsServer κ}
    (success : ({} : UdsServer κ).bind path (.ok l) none = (s, none)) :
    s = { mSocket := l, process := ({} : Process).opened l .listener } := by
  simp only [bind] at success
  split at success
  · cases (Prod.mk.inj success).2
  · exact (Prod.mk.inj success).1.symm

/-- The table is settled after every call of `run`. -/
theorem Runs.settled {rounds : List Round} {s : UdsServer κ} (runs : Runs cls l rounds s) :
    s.mSocket = l ∧ Settled l s.mConnections s.process := by
  induction runs with
  | @bound path s nonneg success =>
    rw [bind_state success]
    refine ⟨rfl, ?_⟩
    exact {
      distinct := List.nodup_nil
      below := by simp
      opened := by simp
      connected := by simp
      listening := Function.update_self _ _ _
      owned := fun fd owner has => by
        by_cases same : fd = l
        · subst same
          have listens : some Owner.listener = some owner := by
            rw [← has]
            exact (Function.update_self fd (some Owner.listener) ({} : Process).descriptors).symm
          exact Or.inl ⟨(Option.some.inj listens).symm, rfl⟩
        · have nothing : none = some owner := by
            rw [← has]
            exact (Function.update_of_ne same (some Owner.listener) ({} : Process).descriptors).symm
          cases nothing
      ended := fun n below => absurd below (Nat.not_lt_zero n)
      unseen := fun n _ => rfl
      closes := fun fd owner member => by cases member }
  | next _ permits ih =>
    obtain ⟨here, settled⟩ := ih
    obtain ⟨stays, next, _⟩ := run_settled settled cls here permits
    exact ⟨stays, next⟩

/-- What holds of the connection table between two calls of `run`. -/
structure TableInvariant (s : UdsServer κ) : Prop where
  distinct : (s.mConnections.map (·.serial)).Nodup
  distinctSockets : (s.mConnections.map (·.mSocket)).Nodup
  opened : ∀ con ∈ s.mConnections, 0 ≤ con.mSocket ∧ s.process.descriptors con.mSocket = some (.client con.serial)
  registered : ∀ n, (∃ con ∈ s.mConnections, con.serial = n) ↔
    .onConnect n ∈ s.process.history ∧ .onDisconnect n ∉ s.process.history
  disconnectedOnce : ∀ n, s.process.history.count (.onDisconnect n) ≤ 1
  connectedFirst : ∀ n, Precedes (.onConnect n) (.onDisconnect n) s.process.history
  dropped : ∀ n fd, .accepted n fd ∈ s.process.history →
    (.dropped n ∈ s.process.history ↔ ∀ con ∈ s.mConnections, con.serial ≠ n)
  closedOnce : ∀ n fd, .accepted n fd ∈ s.process.history →
    s.process.history.count (.closed fd (some (.client n))) = if .dropped n ∈ s.process.history then 1 else 0
  droppedFirst : ∀ n fd, Precedes (.dropped n) (.closed fd (some (.client n))) s.process.history
  closesOwn : ∀ fd owner, .closed fd owner ∈ s.process.history →
    ∃ n, owner = some (.client n) ∧ .accepted n fd ∈ s.process.history

/-- Who is read in one call of `run`: the connections that were reported, and one that comes and is taken. -/
structure ReadsOnce (cls : ConnectionClass κ) (r : Round) (s s' : UdsServer κ) : Prop where
  registered : ∀ con ∈ s.mConnections, readings s'.process con.serial =
    readings s.process con.serial + if r.reports con.mSocket then 1 else 0
  welcomed : r.reports s.mSocket = true → r.accept ≠ -1 → (cls.createConnection r.accept).isSome = true →
    .onConnect s.process.accepts ∉ s.process.history ∧ .onConnect s.process.accepts ∈ s'.process.history
  accepted : ∀ n, .onConnect n ∉ s.process.history → .onConnect n ∈ s'.process.history →
    readings s'.process n = readings s.process n + 1
  others : ∀ n, (∀ con ∈ s.mConnections, con.serial ≠ n) →
    (.onConnect n ∈ s'.process.history → .onConnect n ∈ s.process.history) →
    readings s'.process n = readings s.process n

namespace Settled
variable {held : List (SocketObject κ)} {p : Process}

/-- Where every connection that there is or will be stands. -/
theorem phase_cases (settled : Settled l held p) (n : Nat) :
    (∃ con ∈ held, con.serial = n ∧ connectionLifecycle.phase p.history n = some (.connected con.mSocket)) ∨
      (∀ con ∈ held, con.serial ≠ n) ∧ (connectionLifecycle.phase p.history n = some .unseen ∨
        ∃ fd, connectionLifecycle.phase p.history n = some (.turnedAway fd) ∨
          connectionLifecycle.phase p.history n = some (.gone fd)) := by
  by_cases known : ∃ con ∈ held, con.serial = n
  · obtain ⟨con, member, rfl⟩ := known
    exact Or.inl ⟨con, member, rfl, settled.connected con member⟩
  · have absent : ∀ con ∈ held, con.serial ≠ n := fun con member same => known ⟨con, member, same⟩
    refine Or.inr ⟨absent, ?_⟩
    by_cases old : n < p.accepts
    · exact Or.inr (settled.ended n old absent)
    · exact Or.inl (settled.unseen n (not_lt.mp old))

theorem tracked (settled : Settled l held p) (n : Nat) : ∃ phase, connectionLifecycle.phase p.history n = some phase := by
  rcases settled.phase_cases n with ⟨con, _, _, reached⟩ | ⟨_, reached | ⟨fd, reached | reached⟩⟩ <;> exact ⟨_, reached⟩

theorem connects_le (settled : Settled l held p) (n : Nat) : connects p n ≤ 1 := by
  obtain ⟨phase, reached⟩ := settled.tracked n
  rw [connects, (Phase.counts reached).2.1]
  cases phase <;> simp [Phase.connects]

/-- One event of a connection always comes after another one that every phase it is possible in
counts. -/
theorem precedes (settled : Settled l held p) {first second : ServerEvent} {n : Nat}
    (about : connectionLifecycle.subject second = some n)
    (counted : ∀ past q r, connectionLifecycle.phase past n = some q → connectionLifecycle.next q second = some r →
      0 < past.count first) : Precedes first second p.history := by
  intro past moment
  obtain ⟨phase, reached⟩ := settled.tracked n
  obtain ⟨q, r, before, step⟩ := Lifecycle.phase_before reached about moment
  exact List.count_pos_iff.mp (counted past q r before step)

theorem tableInvariant {s : UdsServer κ} (settled : Settled l s.mConnections s.process) : TableInvariant s where
  distinct := settled.distinct
  distinctSockets := by
    refine List.Nodup.map_on (fun con member other known same => ?_) (List.Nodup.of_map _ settled.distinct)
    have mine := (settled.opened con member).2
    rw [same, (settled.opened other known).2] at mine
    exact (List.inj_on_of_nodup_map settled.distinct member known (by simpa using mine.symm))
  opened := settled.opened
  registered n := by
    rw [← List.count_pos_iff, ← List.count_eq_zero]
    rcases settled.phase_cases n with ⟨con, member, same, reached⟩ | ⟨absent, reached | ⟨fd, reached | reached⟩⟩ <;>
      obtain ⟨_, connects, disconnects, _⟩ := Phase.counts reached <;>
      rw [connects, disconnects]
    · exact ⟨fun _ => ⟨Nat.one_pos, rfl⟩, fun _ => ⟨con, member, same⟩⟩
    all_goals simpa [Phase.connects, Phase.disconnects] using absent
  disconnectedOnce n := by
    obtain ⟨phase, reached⟩ := settled.tracked n
    rw [(Phase.counts reached).2.2.1]
    cases phase <;> simp [Phase.disconnects]
  connectedFirst n := by
    refine settled.precedes (n := n) rfl fun past q r before step => ?_
    rw [(Phase.counts before).2.1]
    exact Phase.connects_of_disconnect step
  dropped n fd given := by
    rw [← List.count_pos_iff] at given ⊢
    rcases settled.phase_cases n with ⟨con, member, same, reached⟩ | ⟨absent, reached | ⟨fd, reached | reached⟩⟩ <;>
      obtain ⟨accepts, _, _, drops, _⟩ := Phase.counts reached <;>
      rw [accepts] at given <;> rw [drops]
    · exact ⟨fun positive => absurd positive (Nat.lt_irrefl 0), fun absent => absurd same (absent con member)⟩
    · exact absurd given (Nat.lt_irrefl 0)
    all_goals exact ⟨fun _ => absent, fun _ => Nat.one_pos⟩
  closedOnce n fd given := by
    rw [← List.count_pos_iff] at given
    simp only [← List.count_pos_iff (a := ServerEvent.dropped n)]
    rcases settled.phase_cases n with ⟨con, _, _, reached⟩ | ⟨_, reached | ⟨place, reached | reached⟩⟩ <;>
      obtain ⟨accepts, _, _, drops, closes⟩ := Phase.counts reached <;>
      rw [accepts] at given <;> rw [drops, closes]
    · rfl
    · exact absurd given (Nat.lt_irrefl 0)
    all_goals
      by_cases same : place = fd
      · exact if_pos same
      · rw [Phase.accepts, if_neg same] at given
        exact absurd given (Nat.lt_irrefl 0)
  droppedFirst n fd := by
    refine settled.precedes (n := n) rfl fun past q r before step => ?_
    rw [(Phase.counts before).2.2.2.1]
    exact Phase.drops_of_close step
  closesOwn fd owner member := by
    obtain ⟨n, rfl⟩ := settled.closes fd owner member
    obtain ⟨phase, reached⟩ := settled.tracked n
    obtain ⟨accepts, _, _, _, closes⟩ := Phase.counts reached
    have positive := List.count_pos_iff.mpr member
    refine ⟨n, rfl, List.count_pos_iff.mp ?_⟩
    rw [closes] at positive
    rw [accepts]
    cases phase <;> simp_all [Phase.closes, Phase.accepts]

end Settled

/-- A connection of the table is counted once among those of the table. -/
theorem countP_serial {held : List (SocketObject κ)} (distinct : (held.map (·.serial)).Nodup) {con : SocketObject κ}
    (member : con ∈ held) (chosen : SocketObject κ → Bool) :
    held.countP (fun other => other.serial = con.serial ∧ chosen other = true) = if chosen con then 1 else 0 := by
  induction held with
  | nil => cases member
  | cons first rest ih =>
    obtain ⟨apart, others⟩ := List.nodup_cons.mp distinct
    rw [List.countP_cons]
    rcases List.mem_cons.mp member with rfl | later
    · have none : rest.countP (fun other => other.serial = con.serial ∧ chosen other = true) = 0 := by
        refine List.countP_eq_zero.mpr fun other inside => ?_
        have different : other.serial ≠ con.serial := fun same => apart (List.mem_map.mpr ⟨other, inside, same⟩)
        simp [different]
      rw [none]
      simp
    · have different : first.serial ≠ con.serial := fun same => apart (List.mem_map.mpr ⟨con, later, same.symm⟩)
      rw [ih others later]
      simp [different]

/-- The connection table of the select loop. Whatever `select`, `accept4` and `recv` give and
whichever connections close themselves, the table keeps its invariant, and one call of `run` reads
whom it has to. -/
theorem table_invariant {rounds : List Round} {s : UdsServer κ} (runs : Runs cls l rounds s) :
    TableInvariant s ∧ ∀ r, s.Permits r → ReadsOnce cls r s (s.run cls r).2 := by
  obtain ⟨here, settled⟩ := runs.settled
  have table := settled.tableInvariant
  refine ⟨table, fun r permits => ?_⟩
  obtain ⟨_, after, counts⟩ := run_settled settled cls here permits
  have unheld : ∀ n, (∀ con ∈ s.mConnections, con.serial ≠ n) →
      s.mConnections.countP (fun con => con.serial = n ∧ r.reports con.mSocket = true) = 0 := fun n absent =>
    List.countP_eq_zero.mpr fun con member => by simp [absent con member]
  exact {
    registered := fun con member => by
      obtain ⟨grows, balance⟩ := counts con.serial
      have old : connects s.process con.serial = 1 := (Phase.counts (settled.connected con member)).2.1
      have bound := after.connects_le con.serial
      rw [countP_serial settled.distinct member (fun con => r.reports con.mSocket)] at balance
      omega
    welcomed := fun reported came taken => by
      have new : connects s.process s.process.accepts = 0 :=
        (Phase.counts (settled.unseen s.process.accepts le_rfl)).2.1
      refine ⟨List.count_eq_zero.mp new, List.count_pos_iff.mp ?_⟩
      exact run_connects settled cls permits reported came taken
    accepted := fun n new old => by
      obtain ⟨grows, balance⟩ := counts n
      have absent : ∀ con ∈ s.mConnections, con.serial ≠ n := fun con member same =>
        new ((table.registered n).mp ⟨con, member, same⟩).1
      have before : connects s.process n = 0 := List.count_eq_zero.mpr new
      have later : 0 < connects (s.run cls r).2.process n := List.count_pos_iff.mpr old
      have bound := after.connects_le n
      rw [unheld n absent] at balance
      omega
    others := fun n absent same => by
      obtain ⟨grows, balance⟩ := counts n
      have bound := after.connects_le n
      have equal : 0 < connects (s.run cls r).2.process n → 0 < connects s.process n := fun later =>
        List.count_pos_iff.mpr (same (List.count_pos_iff.mp later))
      rw [unheld n absent] at balance
      omega }

/-- A class that takes every descriptor but one, and closes itself twice when it reads a letter. -/
def quitting : ConnectionClass Unit where
  createConnection fd := if fd = 7 then none else some ()
  onRead data _ := (if data = bytes "q" then 2 else 0, ())

/-- Two clients come, the first of which quits when the second one is there, and a third one is refused
while the second one has nothing to say. -/
def threeRounds : List Round := [
  ⟨.leaves fun _ => true, 5, fun _ => .fails eagain⟩,
  ⟨.leaves fun _ => true, 6, fun i => if i = 0 then .received (bytes "x") else .received (bytes "q")⟩,
  ⟨.leaves fun _ => true, 7, fun _ => .fails eagain⟩]

def afterThree : UdsServer Unit :=
  threeRounds.foldl (fun s r => (s.run quitting r).2) (({} : UdsServer Unit).bind (bytes "/p.sock") (.ok 3) none).1

theorem afterThree_runs : Runs quitting 3 threeRounds afterThree :=
  .next (.next (.next (@Runs.bound _ _ _ (bytes "/p.sock") _ (by decide) rfl) (Or.inr ⟨by decide, rfl⟩))
    (Or.inr ⟨by decide, rfl⟩)) (Or.inr ⟨by decide, rfl⟩)

theorem table_invariant_three :
    TableInvariant afterThree ∧ ∀ r, afterThree.Permits r → ReadsOnce quitting r afterThree (afterThree.run quitting r).2 :=
  table_invariant afterThree_runs

example : afterThree.mConnections.map (fun con => (con.serial, con.mSocket)) = [(1, 6)] := by decide

example : (afterThree.process.history.filter fun e => connectionLifecycle.subject e = some 0) =
    [.accepted 0 5, .onConnect 0, .read 0, .read 0, .dropped 0, .closed 5 (some (.client 0)), .onDisconnect 0] := by
  decide

end UdsServer

end DockerPlugin
