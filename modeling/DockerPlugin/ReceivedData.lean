import DockerPlugin.ConnectionRuns

namespace DockerPlugin
open Octets

/-- The bytes that come with a result of `recv`. At the end of the stream and at an error there are none. -/
def RecvResult.data? : RecvResult → Option Bytes
  | .received [] => none
  | .received data => some data
  | .fails _ => none

namespace UdsServer
variable {κ : Type} {cls : ConnectionClass κ} {l : Int}

/-- The results of `recv` in the order of the reads, each with the connection that was read. -/
def readLog : (Nat → RecvResult) → List ServerEvent → List (Nat × RecvResult)
  | _, [] => []
  | recvs, .read n :: events => (n, recvs 0) :: readLog (fun i => recvs (i + 1)) events
  | recvs, _ :: events => readLog recvs events

/-- What was received for one connection, piece by piece. -/
def pieces (n : Nat) (log : List (Nat × RecvResult)) : List Bytes :=
  log.filterMap fun entry => if entry.1 = n then entry.2.data? else none

/-- What `on_read` makes of the members of a connection, piece by piece. -/
def fed (cls : ConnectionClass κ) (self : κ) (texts : List Bytes) : κ :=
  texts.foldl (fun self data => (cls.onRead data self).2) self

/-- Whether a connection takes some pieces without closing itself. -/
def Stays (cls : ConnectionClass κ) : κ → List Bytes → Prop
  | _, [] => True
  | self, data :: later => (cls.onRead data self).1 = 0 ∧ Stays cls (cls.onRead data self).2 later

@[simp] theorem pieces_append (n : Nat) (log more : List (Nat × RecvResult)) :
    pieces n (log ++ more) = pieces n log ++ pieces n more := List.filterMap_append

theorem pieces_own (n : Nat) (res : RecvResult) (log : List (Nat × RecvResult)) :
    pieces n ((n, res) :: log) = res.data?.toList ++ pieces n log := by
  rw [pieces, List.filterMap_cons, if_pos rfl]
  cases res.data? <;> rfl

theorem pieces_other {m n : Nat} (apart : m ≠ n) (res : RecvResult) (log : List (Nat × RecvResult)) :
    pieces n ((m, res) :: log) = pieces n log := by
  rw [pieces, List.filterMap_cons, if_neg apart]
  rfl

theorem pieces_concat (n m : Nat) (res : RecvResult) (log : List (Nat × RecvResult)) :
    pieces n (log ++ [(m, res)]) = pieces n log ++ if m = n then res.data?.toList else [] := by
  rw [pieces_append]
  by_cases here : m = n
  · subst here
    rw [pieces_own, if_pos rfl]
    exact congrArg (pieces m log ++ ·) (List.append_nil _)
  · rw [pieces_other here, if_neg here]
    rfl

theorem fed_append (cls : ConnectionClass κ) (self : κ) (texts more : List Bytes) :
    fed cls self (texts ++ more) = fed cls (fed cls self texts) more := List.foldl_append

theorem Stays.append {self : κ} {texts more : List Bytes} (first : Stays cls self texts)
    (second : Stays cls (fed cls self texts) more) : Stays cls self (texts ++ more) := by
  induction texts generalizing self with
  | nil => exact second
  | cons data later ih => exact ⟨first.1, ih first.2 second⟩

/-- Events without a read take no result. -/
theorem readLog_quiet {events : List ServerEvent} (quiet : ∀ n, .read n ∉ events) (recvs : Nat → RecvResult)
    (later : List ServerEvent) : readLog recvs (events ++ later) = readLog recvs later := by
  induction events with
  | nil => rfl
  | cons e events ih =>
    have rest := ih fun n member => quiet n (List.mem_cons_of_mem e member)
    cases e with
    | read n => exact absurd List.mem_cons_self (quiet n)
    | fdSet | fdIsset | accepted | onConnect | dropped | onDisconnect | closed => exact rest

theorem read_of_mem_readLog {recvs : Nat → RecvResult} {events : List ServerEvent} {entry : Nat × RecvResult}
    (member : entry ∈ readLog recvs events) : .read entry.1 ∈ events := by
  induction events generalizing recvs with
  | nil => cases member
  | cons e events ih =>
    cases e with
    | read n =>
      rcases List.mem_cons.mp member with rfl | later
      · exact List.mem_cons_self
      · exact List.mem_cons_of_mem _ (ih later)
    | fdSet | fdIsset | accepted | onConnect | dropped | onDisconnect | closed =>
      exact List.mem_cons_of_mem _ (ih member)

/-- For a connection that is not read nothing is received. -/
theorem pieces_unread {n : Nat} {events : List ServerEvent} (unread : .read n ∉ events) (recvs : Nat → RecvResult) :
    pieces n (readLog recvs events) = [] := by
  refine List.filterMap_eq_nil_iff.mpr fun entry member => if_neg fun number => unread ?_
  rw [← number]
  exact read_of_mem_readLog member

theorem closes_self (times : Nat) (con : SocketObject κ) (p : Process) :
    (SocketObject.closes times con p).1.self = con.self := by
  induction times generalizing con p with
  | zero => rfl
  | succ times ih => exact ih _ _

theorem handleIo_self (cls : ConnectionClass κ) (res : RecvResult) (con : SocketObject κ) (p : Process) :
    (handleIo cls res con p).2.1.self = fed cls con.self res.data?.toList := by
  rcases res with (_ | ⟨first, data⟩) | errno
  · rfl
  · exact closes_self _ _ _
  · simp only [handleIo]
    split <;> rfl

theorem RecvResult.stays {res : RecvResult} {self : κ} (goesOn : ¬ res.ends cls self) :
    Stays cls self res.data?.toList := by
  rcases res with (_ | ⟨first, data⟩) | errno
  · trivial
  · exact ⟨not_not.mp goesOn, trivial⟩
  · trivial

/-- A visit: the connection is read and fed with what came, or read and ended. -/
theorem handleIo_reads (cls : ConnectionClass κ) (res : RecvResult) (con : SocketObject κ) (p : Process)
    (opened : 0 ≤ con.mSocket) :
    Stays cls con.self res.data?.toList ∧ handleIo cls res con p =
        (false, { con with self := fed cls con.self res.data?.toList }, p.note [.read con.serial]) ∨
      ∃ con' p' tail, handleIo cls res con p = (true, con', p') ∧ (∀ n, .read n ∉ tail) ∧
        con'.release p' = p.ended con.serial con.mSocket tail := by
  have feeds := handleIo_self cls res con p
  rcases handleIo_cases cls res con p opened with ⟨goesOn, self, kept⟩ | ⟨_, con', p', tail, ended, ending, gone⟩
  · refine Or.inl ⟨RecvResult.stays goesOn, ?_⟩
    rw [kept] at feeds ⊢
    rw [← feeds]
  · refine Or.inr ⟨con', p', tail, ended, fun n member => ?_, gone⟩
    rcases ending with rfl | rfl <;> simp at member

/-- The loop over the table: what it reads, it reads of connections of the table, each of which is fed with what
came for it. -/
theorem sweep_reads (cls : ConnectionClass κ) (set : List Int) (recvs : Nat → RecvResult) (held : List (SocketObject κ))
    (p : Process) (opened : ∀ con ∈ held, 0 ≤ con.mSocket) (distinct : (held.map (·.serial)).Nodup) :
    (sweep cls set recvs held p).2.accepts = p.accepts ∧ ∃ events,
      (sweep cls set recvs held p).2.history = p.history ++ events ∧
      (∀ n, .read n ∈ events → ∃ con ∈ held, con.serial = n) ∧
      ∀ con ∈ (sweep cls set recvs held p).1, ∃ old ∈ held,
        con = { old with self := fed cls old.self (pieces old.serial (readLog recvs events)) } ∧
          Stays cls old.self (pieces old.serial (readLog recvs events)) := by
  induction held generalizing recvs p with
  | nil => exact ⟨rfl, [], (List.append_nil _).symm, fun n member => absurd member List.not_mem_nil,
      fun con member => absurd member List.not_mem_nil⟩
  | cons con rest ih =>
    obtain ⟨open', others⟩ := List.forall_mem_cons.mp opened
    obtain ⟨fresh, distinct'⟩ := List.nodup_cons.mp distinct
    have apart : ∀ other ∈ rest, con.serial ≠ other.serial := fun other member same =>
      fresh (List.mem_map.mpr ⟨other, member, same.symm⟩)
    by_cases reported : con.mSocket ∈ set
    · rcases handleIo_reads cls (recvs 0) con (p.note [.fdIsset con.mSocket]) open' with
        ⟨stays, kept⟩ | ⟨con', p', tail, ended, quiet, gone⟩
      · have same : sweep cls set recvs (con :: rest) p =
            ({ con with self := fed cls con.self (recvs 0).data?.toList } ::
              (sweep cls set (fun i => recvs (i + 1)) rest
                ((p.note [.fdIsset con.mSocket]).note [.read con.serial])).1,
            (sweep cls set (fun i => recvs (i + 1)) rest
              ((p.note [.fdIsset con.mSocket]).note [.read con.serial])).2) := by
          simp only [sweep, if_pos reported, kept, Bool.false_eq_true, if_false]
        obtain ⟨accepts, events, history, known, left⟩ :=
          ih (fun i => recvs (i + 1)) ((p.note [.fdIsset con.mSocket]).note [.read con.serial]) others distinct'
        rw [same]
        refine ⟨accepts, .fdIsset con.mSocket :: .read con.serial :: events, by simpa using history, fun n member => ?_,
          fun next member => ?_⟩
        · simp only [List.mem_cons, reduceCtorEq, ServerEvent.read.injEq, false_or] at member
          rcases member with rfl | later
          · exact ⟨con, List.mem_cons_self, rfl⟩
          · obtain ⟨other, inside, number⟩ := known n later
            exact ⟨other, List.mem_cons_of_mem _ inside, number⟩
        · have log : readLog recvs (.fdIsset con.mSocket :: .read con.serial :: events) =
              (con.serial, recvs 0) :: readLog (fun i => recvs (i + 1)) events := rfl
          rw [log]
          rcases List.mem_cons.mp member with rfl | later
          · refine ⟨con, List.mem_cons_self, ?_⟩
            have unread : .read con.serial ∉ events := fun inside => by
              obtain ⟨other, there, number⟩ := known _ inside
              exact apart other there number.symm
            rw [pieces_own, pieces_unread unread, List.append_nil]
            exact ⟨rfl, stays⟩
          · obtain ⟨old, inside, feeds⟩ := left next later
            refine ⟨old, List.mem_cons_of_mem _ inside, ?_⟩
            rw [pieces_other (apart old inside)]
            exact feeds
      · have same : sweep cls set recvs (con :: rest) p = sweep cls set (fun i => recvs (i + 1)) rest
            ((p.note [.fdIsset con.mSocket]).ended con.serial con.mSocket tail) := by
          simp only [sweep, if_pos reported, ended, if_true, gone]
        obtain ⟨accepts, events, history, known, left⟩ := ih (fun i => recvs (i + 1))
          ((p.note [.fdIsset con.mSocket]).ended con.serial con.mSocket tail) others distinct'
        rw [same]
        refine ⟨accepts, .fdIsset con.mSocket :: .read con.serial :: .dropped con.serial :: (tail ++ events), ?_,
          fun n member => ?_, fun next member => ?_⟩
        · rw [history]
          simp [Process.ended]
        · simp only [List.mem_cons, reduceCtorEq, ServerEvent.read.injEq, false_or, List.mem_append] at member
          rcases member with rfl | inTail | later
          · exact ⟨con, List.mem_cons_self, rfl⟩
          · exact absurd inTail (quiet n)
          · obtain ⟨other, inside, number⟩ := known n later
            exact ⟨other, List.mem_cons_of_mem _ inside, number⟩
        · have log : readLog recvs
              (.fdIsset con.mSocket :: .read con.serial :: .dropped con.serial :: (tail ++ events)) =
              (con.serial, recvs 0) :: readLog (fun i => recvs (i + 1)) (tail ++ events) := rfl
          obtain ⟨old, inside, feeds⟩ := left next member
          refine ⟨old, List.mem_cons_of_mem _ inside, ?_⟩
          rw [log, pieces_other (apart old inside), readLog_quiet quiet]
          exact feeds
    · have same : sweep cls set recvs (con :: rest) p =
          (con :: (sweep cls set recvs rest (p.note [.fdIsset con.mSocket])).1,
            (sweep cls set recvs rest (p.note [.fdIsset con.mSocket])).2) := by
        simp only [sweep, if_neg reported]
      obtain ⟨accepts, events, history, known, left⟩ := ih recvs (p.note [.fdIsset con.mSocket]) others distinct'
      rw [same]
      refine ⟨accepts, .fdIsset con.mSocket :: events, by simpa using history, fun n member => ?_,
        fun next member => ?_⟩
      · simp only [List.mem_cons, reduceCtorEq, false_or] at member
        obtain ⟨other, inside, number⟩ := known n member
        exact ⟨other, List.mem_cons_of_mem _ inside, number⟩
      · have log : readLog recvs (.fdIsset con.mSocket :: events) = readLog recvs events := rfl
        rw [log]
        rcases List.mem_cons.mp member with rfl | later
        · refine ⟨next, List.mem_cons_self, ?_⟩
          have unread : .read next.serial ∉ events := fun inside => by
            obtain ⟨other, there, number⟩ := known _ inside
            exact apart other there number.symm
          rw [pieces_unread unread]
          exact ⟨rfl, trivial⟩
        · obtain ⟨old, inside, feeds⟩ := left next later
          exact ⟨old, List.mem_cons_of_mem _ inside, feeds⟩

/-- The branch for a new connection: nobody else is read in it, and the results that are left go on from there. -/
theorem acceptConnection_reads (cls : ConnectionClass κ) {r : Round} {s : UdsServer κ} (permits : s.Permits r) :
    s.process.accepts ≤ (acceptConnection cls r s).1.process.accepts ∧ ∃ events,
      (acceptConnection cls r s).1.process.history = s.process.history ++ events ∧
      (∀ n, .read n ∈ events → n = s.process.accepts ∧ n < (acceptConnection cls r s).1.process.accepts) ∧
      (∀ later, readLog r.recvs (events ++ later) =
        readLog r.recvs events ++ readLog (acceptConnection cls r s).2 later) ∧
      ∀ con ∈ (acceptConnection cls r s).1.mConnections, con ∈ s.mConnections ∨
        con.serial = s.process.accepts ∧ ∃ self, cls.createConnection con.mSocket = some self ∧
          con.self = fed cls self (pieces con.serial (readLog r.recvs events)) ∧
          Stays cls self (pieces con.serial (readLog r.recvs events)) := by
  by_cases came : r.accept = -1
  · rw [acceptConnection, if_pos came]
    exact ⟨le_rfl, [], (List.append_nil _).symm, fun n member => absurd member List.not_mem_nil, fun _ => rfl,
      fun con member => Or.inl member⟩
  obtain ⟨nonneg, -⟩ := permits.resolve_left came
  have more : s.process.accepts ≤ s.process.accepts + 1 := Nat.le_succ _
  cases made : cls.createConnection r.accept with
  | none =>
    have same : acceptConnection cls r s = ({ s with process := s.process.refused r.accept }, r.recvs) := by
      simp only [acceptConnection, if_neg came, made]
      rfl
    rw [same]
    refine ⟨more, [.accepted s.process.accepts r.accept, .dropped s.process.accepts,
      .closed r.accept (some (.client s.process.accepts))], ?_, fun n member => ?_, fun _ => rfl,
      fun con member => Or.inl member⟩
    · simp [Process.refused, Process.accept, Process.close]
    · simp at member
  | some self =>
    rcases handleIo_reads cls (r.recvs 0) ⟨s.process.accepts, r.accept, self⟩ (s.process.admitted r.accept) nonneg with
      ⟨stays, kept⟩ | ⟨con', p', tail, ended, quiet, gone⟩
    · have same : acceptConnection cls r s = (⟨s.mSocket,
          s.mConnections ++ [⟨s.process.accepts, r.accept, fed cls self (r.recvs 0).data?.toList⟩],
          (s.process.admitted r.accept).note [.read s.process.accepts]⟩, fun i => r.recvs (i + 1)) := by
        simp only [Process.admitted] at kept
        simp only [acceptConnection, if_neg came, made, kept, Bool.false_eq_true, if_false]
        rfl
      rw [same]
      refine ⟨more, [.accepted s.process.accepts r.accept, .onConnect s.process.accepts, .read s.process.accepts], ?_,
        fun n member => ?_, fun _ => rfl, fun next member => ?_⟩
      · simp [Process.admitted, Process.accept]
      · simp only [List.mem_cons, reduceCtorEq, ServerEvent.read.injEq, false_or, List.not_mem_nil, or_false] at member
        subst member
        exact ⟨rfl, Nat.lt_succ_self _⟩
      · rcases List.mem_append.mp member with old | new
        · exact Or.inl old
        · obtain rfl := List.mem_singleton.mp new
          refine Or.inr ⟨rfl, self, made, ?_⟩
          have log : readLog r.recvs [.accepted s.process.accepts r.accept, .onConnect s.process.accepts,
              .read s.process.accepts] = [(s.process.accepts, r.recvs 0)] := rfl
          have own : pieces s.process.accepts [(s.process.accepts, r.recvs 0)] = (r.recvs 0).data?.toList := by
            rw [pieces_own]
            exact List.append_nil _
          rw [log, own]
          exact ⟨rfl, stays⟩
    · have same : acceptConnection cls r s =
          ({ s with process := (s.process.admitted r.accept).ended s.process.accepts r.accept tail },
            fun i => r.recvs (i + 1)) := by
        simp only [← gone]
        simp only [Process.admitted] at ended
        simp only [acceptConnection, if_neg came, made, ended, if_true]
      rw [same]
      refine ⟨more, [.accepted s.process.accepts r.accept, .onConnect s.process.accepts, .read s.process.accepts,
        .dropped s.process.accepts] ++ tail, ?_, fun n member => ?_, fun later => ?_, fun next member => Or.inl member⟩
      · simp [Process.ended, Process.admitted, Process.accept]
      · rcases List.mem_append.mp member with front | inTail
        · simp only [List.mem_cons, reduceCtorEq, ServerEvent.read.injEq, false_or, List.not_mem_nil, or_false] at front
          subst front
          exact ⟨rfl, Nat.lt_succ_self _⟩
        · exact absurd inTail (quiet n)
      · have whole : ∀ events, readLog r.recvs ([.accepted s.process.accepts r.accept, .onConnect s.process.accepts,
            .read s.process.accepts, .dropped s.process.accepts] ++ events) =
            (s.process.accepts, r.recvs 0) :: readLog (fun i => r.recvs (i + 1)) events := fun _ => rfl
        have nothing := readLog_quiet quiet (fun i => r.recvs (i + 1)) []
        rw [List.append_nil] at nothing
        rw [List.append_assoc, whole, whole, readLog_quiet quiet, nothing]
        rfl

/-- How a table stands to what was received: each connection is made of what came for it, and nothing came for those
that are not accepted yet. -/
structure Fed (cls : ConnectionClass κ) (log : List (Nat × RecvResult)) (s : UdsServer κ) : Prop where
  members : ∀ con ∈ s.mConnections, ∃ self, cls.createConnection con.mSocket = some self ∧
    con.self = fed cls self (pieces con.serial log) ∧ Stays cls self (pieces con.serial log)
  known : ∀ entry ∈ log, entry.1 < s.process.accepts

/-- The events of `run` before anything is accepted or read. -/
def polling (s : UdsServer κ) : List ServerEvent := s.passed.map .fdSet ++ [.fdIsset s.mSocket]

theorem polling_quiet (s : UdsServer κ) (n : Nat) : .read n ∉ s.polling := by simp [polling]

theorem welcomed_fed {s : UdsServer κ} (settled : Settled l s.mConnections s.process) {r : Round}
    (permits : s.Permits r) (ready : Int → Bool) {log : List (Nat × RecvResult)} (here : Fed cls log s) : ∃ events,
      (s.welcomed cls r ready).1.process.history = s.process.history ++ events ∧
      (∀ later, readLog r.recvs (events ++ later) =
        readLog r.recvs events ++ readLog (s.welcomed cls r ready).2 later) ∧
      Fed cls (log ++ readLog r.recvs events) (s.welcomed cls r ready).1 := by
  have quiet := readLog_quiet s.polling_quiet r.recvs
  have front : s.tested.process.history = s.process.history ++ s.polling := List.append_assoc ..
  unfold welcomed
  split
  · have permits' : s.tested.Permits r := permits
    obtain ⟨more, events, history, new, later, members⟩ := acceptConnection_reads cls permits'
    refine ⟨s.polling ++ events, ?_, fun rest => ?_, ?_, ?_⟩
    · rw [history, front, List.append_assoc]
    · rw [List.append_assoc, quiet, quiet, later]
    · rw [quiet]
      intro con member
      rcases members con member with old | ⟨number, self, made, feeds, stays⟩
      · obtain ⟨self, made, feeds, stays⟩ := here.members con old
        have unread : .read con.serial ∉ events := fun inside => by
          have below := settled.below con old
          have number : con.serial = s.process.accepts := (new _ inside).1
          omega
        rw [pieces_append, pieces_unread unread, List.append_nil]
        exact ⟨self, made, feeds, stays⟩
      · have before : pieces con.serial log = [] := by
          refine List.filterMap_eq_nil_iff.mpr fun entry inside => if_neg fun same => ?_
          have below := here.known entry inside
          have fresh : con.serial = s.process.accepts := number
          omega
        rw [pieces_append, before, List.nil_append]
        exact ⟨self, made, feeds, stays⟩
    · rw [quiet]
      intro entry member
      rcases List.mem_append.mp member with old | inside
      · exact lt_of_lt_of_le (here.known entry old) more
      · exact (new _ (read_of_mem_readLog inside)).2
  · have nothing : readLog r.recvs s.polling = [] := by
      have whole := quiet []
      rw [List.append_nil] at whole
      exact whole
    refine ⟨s.polling, front, fun rest => ?_, ?_⟩
    · rw [quiet, nothing]
      rfl
    · rw [nothing, List.append_nil]
      exact ⟨here.members, here.known⟩

/-- One call of `run` feeds the connections with what it reads. -/
theorem run_fed {s : UdsServer κ} (settled : Settled l s.mConnections s.process) {r : Round} (permits : s.Permits r)
    {log : List (Nat × RecvResult)} (here : Fed cls log s) : ∃ events,
      (s.run cls r).2.process.history = s.process.history ++ events ∧
      Fed cls (log ++ readLog r.recvs events) (s.run cls r).2 := by
  by_cases idle : ∀ ready, r.select ≠ .leaves ready
  · obtain ⟨same, -⟩ := run_idle cls s idle
    have silent : ∀ n, ServerEvent.read n ∉ s.passed.map ServerEvent.fdSet := by simp
    have nothing := readLog_quiet silent r.recvs []
    rw [List.append_nil] at nothing
    refine ⟨s.passed.map .fdSet, by rw [same]; rfl, ?_⟩
    rw [same, nothing]
    show Fed cls (log ++ []) s.polled
    rw [List.append_nil]
    exact ⟨here.members, here.known⟩
  · push Not at idle
    obtain ⟨ready, chosen⟩ := idle
    obtain ⟨first, history, goesOn, between⟩ := welcomed_fed settled permits ready here
    obtain ⟨_, _, next, _⟩ := welcomed_settled settled cls permits ready
    obtain ⟨accepts, second, history', reads, members⟩ := sweep_reads cls (s.left ready) (s.welcomed cls r ready).2
      (s.welcomed cls r ready).1.mConnections (s.welcomed cls r ready).1.process
      (fun con member => (next.opened con member).1) next.distinct
    rw [run_leaves cls s chosen]
    refine ⟨first ++ second, by rw [history', history, List.append_assoc], ?_, ?_⟩
    · intro con member
      obtain ⟨old, inside, same, stays⟩ := members con member
      obtain ⟨self, made, feeds, stays'⟩ := between.members old inside
      rw [feeds] at stays
      rw [same]
      refine ⟨self, made, ?_⟩
      show fed cls old.self _ = fed cls self (pieces old.serial _) ∧ Stays cls self (pieces old.serial _)
      rw [goesOn, ← List.append_assoc, pieces_append, fed_append, feeds]
      exact ⟨rfl, stays'.append stays⟩
    · rw [goesOn, ← List.append_assoc]
      intro entry member
      show entry.1 < (sweep _ _ _ _ _).2.accepts
      rw [accepts]
      rcases List.mem_append.mp member with old | inside
      · exact between.known entry old
      · obtain ⟨con, there, number⟩ := reads _ (read_of_mem_readLog inside)
        rw [← number]
        exact next.below con there

/-- A server that was just bound. -/
def listening (l : Int) : UdsServer κ where
  mSocket := l
  process := ({} : Process).opened l .listener

/-- A call of `run`, with what is received in it behind what was received before. -/
def receive (cls : ConnectionClass κ) (state : UdsServer κ × List (Nat × RecvResult)) (r : Round) :
    UdsServer κ × List (Nat × RecvResult) :=
  ((state.1.run cls r).2,
    state.2 ++ readLog r.recvs ((state.1.run cls r).2.process.history.drop state.1.process.history.length))

/-- All that is received over some calls of `run`. -/
def received (cls : ConnectionClass κ) (l : Int) (rounds : List Round) : List (Nat × RecvResult) :=
  (rounds.foldl (receive cls) (listening l, [])).2

theorem Runs.fed {rounds : List Round} {s : UdsServer κ} (runs : Runs cls l rounds s) :
    (rounds.foldl (receive cls) (listening l, [])).1 = s ∧ Fed cls (received cls l rounds) s := by
  induction runs with
  | bound nonneg success =>
    rw [bind_state success]
    exact ⟨rfl, fun con member => absurd member List.not_mem_nil, fun entry member => absurd member List.not_mem_nil⟩
  | @next rounds r s before permits ih =>
    obtain ⟨state, here⟩ := ih
    obtain ⟨events, history, next⟩ := run_fed before.settled.2 permits here
    have log : received cls l (rounds ++ [r]) = received cls l rounds ++ readLog r.recvs events := by
      rw [received, List.foldl_concat, receive, state, history, List.drop_left]
      rfl
    rw [log, List.foldl_concat, receive, state]
    exact ⟨rfl, next⟩

/-- Whatever arrives at a server and in whatever order, each of its connections has been handed the bytes that came on
its descriptor, every one of them once and in their order, and nothing that came for another. None of them has made
it close itself. -/
theorem received_in_order {rounds : List Round} {s : UdsServer κ} (runs : Runs cls l rounds s) {con : SocketObject κ}
    (member : con ∈ s.mConnections) : ∃ self, cls.createConnection con.mSocket = some self ∧
      con.self = fed cls self (pieces con.serial (received cls l rounds)) ∧
      Stays cls self (pieces con.serial (received cls l rounds)) :=
  runs.fed.2.members con member

/-- A class that keeps all that it reads. -/
def hoarding : ConnectionClass Bytes where
  createConnection _ := some []
  onRead data heard := (0, heard ++ data)

/-- Two clients that are accepted one after the other and read in turn. -/
def twoClients : List Round := [⟨.leaves fun _ => true, 5, fun _ => .received (bytes "a")⟩,
  ⟨.leaves fun _ => true, 6, fun i => if i = 0 then .received (bytes "x") else .received (bytes "b")⟩]

def afterTurns : UdsServer Bytes := twoClients.foldl (fun s r => (s.run hoarding r).2) (listening 3)

theorem afterTurns_runs : Runs hoarding 3 twoClients afterTurns :=
  .next (.next (@Runs.bound _ _ _ (bytes "/p.sock") _ (by decide) rfl) (Or.inr ⟨by decide, rfl⟩))
    (Or.inr ⟨by decide, rfl⟩)

theorem received_in_order_two : ∃ self, hoarding.createConnection 5 = some self ∧
    bytes "ab" = fed hoarding self (pieces 0 (received hoarding 3 twoClients)) ∧
    Stays hoarding self (pieces 0 (received hoarding 3 twoClients)) := by
  have member : (⟨0, 5, bytes "ab"⟩ : SocketObject Bytes) ∈ afterTurns.mConnections := by
    have table : afterTurns.mConnections = [⟨0, 5, bytes "ab"⟩, ⟨1, 6, bytes "x"⟩] := rfl
    rw [table]
    exact List.mem_cons_self
  exact received_in_order afterTurns_runs member

end UdsServer

end DockerPlugin
