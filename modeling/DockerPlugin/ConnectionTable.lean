import DockerPlugin.UdsServer
import DockerPlugin.Library.Lifecycle

namespace DockerPlugin
open Octets

/-- What becomes of a descriptor that `accept4` gave. -/
inductive Phase
  | unseen
  | accepted (fd : Int)
  | refused (fd : Int)
  | turnedAway (fd : Int)
  | connected (fd : Int)
  | dropped (fd : Int)
  | closed (fd : Int)
  | disconnected (fd : Int)
  | gone (fd : Int)
  deriving DecidableEq, Repr

/-- The life of a connection, as a server should lead it: one without an object is closed after
it was refused, and any other one is read until it is dropped, and then closed and disconnected in
one order or the other. -/
def connectionLifecycle : Lifecycle ServerEvent Nat Phase where
  subject
    | .accepted n _ | .onConnect n | .read n | .dropped n | .onDisconnect n => some n
    | .closed _ (some (.client n)) => some n
    | _ => none
  start := .unseen
  next
    | .unseen, .accepted _ fd => some (.accepted fd)
    | .accepted fd, .dropped _ => some (.refused fd)
    | .accepted fd, .onConnect _ => some (.connected fd)
    | .refused fd, .closed fd' _ => if fd' = fd then some (.turnedAway fd) else none
    | .connected fd, .read _ => some (.connected fd)
    | .connected fd, .dropped _ => some (.dropped fd)
    | .dropped fd, .closed fd' _ => if fd' = fd then some (.closed fd) else none
    | .dropped fd, .onDisconnect _ => some (.disconnected fd)
    | .closed fd, .onDisconnect _ => some (.gone fd)
    | .disconnected fd, .closed fd' _ => if fd' = fd then some (.gone fd) else none
    | _, _ => none

namespace Phase

/-- Everything an event can do to the connection it is about. -/
theorem next_cases {p q : Phase} {e : ServerEvent} {n : Nat} (about : connectionLifecycle.subject e = some n)
    (step : connectionLifecycle.next p e = some q) :
    (∃ fd, e = .accepted n fd ∧ p = .unseen ∧ q = .accepted fd) ∨
    (∃ fd, e = .dropped n ∧ (p = .accepted fd ∧ q = .refused fd ∨ p = .connected fd ∧ q = .dropped fd)) ∨
    (∃ fd, e = .onConnect n ∧ p = .accepted fd ∧ q = .connected fd) ∨
    (∃ fd, e = .read n ∧ p = .connected fd ∧ q = .connected fd) ∨
    (∃ fd, e = .onDisconnect n ∧ (p = .dropped fd ∧ q = .disconnected fd ∨ p = .closed fd ∧ q = .gone fd)) ∨
    ∃ fd, e = .closed fd (some (.client n)) ∧
      (p = .refused fd ∧ q = .turnedAway fd ∨ p = .dropped fd ∧ q = .closed fd ∨
        p = .disconnected fd ∧ q = .gone fd) := by
  cases e with
  | fdSet | fdIsset => cases about
  | accepted m fd =>
    obtain rfl : m = n := Option.some.inj about
    cases p with
    | unseen => exact Or.inl ⟨fd, rfl, rfl, (Option.some.inj step).symm⟩
    | _ => cases step
  | dropped m =>
    obtain rfl : m = n := Option.some.inj about
    refine Or.inr (Or.inl ?_)
    cases p with
    | accepted fd => exact ⟨fd, rfl, Or.inl ⟨rfl, (Option.some.inj step).symm⟩⟩
    | connected fd => exact ⟨fd, rfl, Or.inr ⟨rfl, (Option.some.inj step).symm⟩⟩
    | _ => cases step
  | onConnect m =>
    obtain rfl : m = n := Option.some.inj about
    refine Or.inr (Or.inr (Or.inl ?_))
    cases p with
    | accepted fd => exact ⟨fd, rfl, rfl, (Option.some.inj step).symm⟩
    | _ => cases step
  | read m =>
    obtain rfl : m = n := Option.some.inj about
    refine Or.inr (Or.inr (Or.inr (Or.inl ?_)))
    cases p with
    | connected fd => exact ⟨fd, rfl, rfl, (Option.some.inj step).symm⟩
    | _ => cases step
  | onDisconnect m =>
    obtain rfl : m = n := Option.some.inj about
    refine Or.inr (Or.inr (Or.inr (Or.inr (Or.inl ?_))))
    cases p with
    | dropped fd => exact ⟨fd, rfl, Or.inl ⟨rfl, (Option.some.inj step).symm⟩⟩
    | closed fd => exact ⟨fd, rfl, Or.inr ⟨rfl, (Option.some.inj step).symm⟩⟩
    | _ => cases step
  | closed place owner =>
    obtain rfl : owner = some (.client n) := by
      rcases owner with _ | _ | m
      · cases about
      · cases about
      · rw [Option.some.inj about]
    refine Or.inr (Or.inr (Or.inr (Or.inr (Or.inr ?_))))
    have own : ∀ {fd : Int} {r : Phase}, (if place = fd then some r else none) = some q → place = fd ∧ r = q := by
      intro fd r taken
      simpa using taken
    cases p with
    | refused fd =>
      obtain ⟨rfl, rfl⟩ := own step
      exact ⟨place, rfl, Or.inl ⟨rfl, rfl⟩⟩
    | dropped fd =>
      obtain ⟨rfl, rfl⟩ := own step
      exact ⟨place, rfl, Or.inr (Or.inl ⟨rfl, rfl⟩)⟩
    | disconnected fd =>
      obtain ⟨rfl, rfl⟩ := own step
      exact ⟨place, rfl, Or.inr (Or.inr ⟨rfl, rfl⟩)⟩
    | _ => cases step

/-- How often `accept4` has given this descriptor to a connection in a phase. -/
def accepts (fd : Int) : Phase → Nat
  | unseen => 0
  | accepted fd' | refused fd' | turnedAway fd' | connected fd' | dropped fd' | closed fd' | disconnected fd' | gone fd' =>
    if fd' = fd then 1 else 0

def connects : Phase → Nat
  | unseen | accepted _ | refused _ | turnedAway _ => 0
  | _ => 1

def disconnects : Phase → Nat
  | disconnected _ | gone _ => 1
  | _ => 0

def drops : Phase → Nat
  | unseen | accepted _ | connected _ => 0
  | _ => 1

def closes (fd : Int) : Phase → Nat
  | turnedAway fd' | closed fd' | gone fd' => if fd' = fd then 1 else 0
  | _ => 0

/-- A connection that can be disconnected was connected, and one that can be closed was dropped. -/
theorem connects_of_disconnect {p q : Phase} {n : Nat} (step : connectionLifecycle.next p (.onDisconnect n) = some q) :
    0 < p.connects := by
  cases p with
  | dropped fd | closed fd => exact Nat.one_pos
  | _ => cases step

theorem drops_of_close {p q : Phase} {fd : Int} {owner : Option Owner}
    (step : connectionLifecycle.next p (.closed fd owner) = some q) : 0 < p.drops := by
  cases p with
  | refused fd | dropped fd | disconnected fd => exact Nat.one_pos
  | _ => cases step

theorem count_eq {history : List ServerEvent} {n : Nat} {p : Phase} {event : ServerEvent} (rank : Phase → Nat)
    (own : connectionLifecycle.subject event = some n) (zero : rank .unseen = 0)
    (step : ∀ p e q, connectionLifecycle.subject e = some n → connectionLifecycle.next p e = some q →
      rank q = rank p + if e == event then 1 else 0)
    (reached : connectionLifecycle.phase history n = some p) : history.count event = rank p :=
  Lifecycle.countP_eq (· == event) rank (fun _ same => eq_of_beq same ▸ own) zero step reached

/-- The counts of the events of a connection, from the phase it is in. -/
theorem counts {history : List ServerEvent} {n : Nat} {p : Phase}
    (reached : connectionLifecycle.phase history n = some p) :
    (∀ fd, history.count (.accepted n fd) = p.accepts fd) ∧ history.count (.onConnect n) = p.connects ∧
      history.count (.onDisconnect n) = p.disconnects ∧ history.count (.dropped n) = p.drops ∧
      ∀ fd, history.count (.closed fd (some (.client n))) = p.closes fd := by
  refine ⟨fun fd => count_eq (accepts fd) rfl rfl ?_ reached, count_eq connects rfl rfl ?_ reached,
    count_eq disconnects rfl rfl ?_ reached, count_eq drops rfl rfl ?_ reached,
    fun fd => count_eq (closes fd) rfl rfl ?_ reached⟩
  all_goals
    intro p e q about step
    rcases next_cases about step with ⟨place, rfl, rfl, rfl⟩ | ⟨place, rfl, ⟨rfl, rfl⟩ | ⟨rfl, rfl⟩⟩ |
      ⟨place, rfl, rfl, rfl⟩ | ⟨place, rfl, rfl, rfl⟩ | ⟨place, rfl, ⟨rfl, rfl⟩ | ⟨rfl, rfl⟩⟩ |
      ⟨place, rfl, ⟨rfl, rfl⟩ | ⟨rfl, rfl⟩ | ⟨rfl, rfl⟩⟩ <;>
    simp [accepts, connects, disconnects, drops, closes]

end Phase

namespace Process

@[simp] theorem note_descriptors (p : Process) (events : List ServerEvent) :
    (p.note events).descriptors = p.descriptors := rfl
@[simp] theorem note_accepts (p : Process) (events : List ServerEvent) : (p.note events).accepts = p.accepts := rfl
@[simp] theorem note_history (p : Process) (events : List ServerEvent) :
    (p.note events).history = p.history ++ events := rfl

/-- A new connection: its descriptor is accepted, and `on_connect` called for it. -/
def admitted (p : Process) (fd : Int) : Process := (p.accept fd).note [.onConnect p.accepts]

/-- A descriptor that was accepted and closed again. -/
def refused (p : Process) (fd : Int) : Process := ((p.accept fd).note [.dropped p.accepts]).close fd

/-- The end of a connection: it is read once more and dropped, and its descriptor goes away. -/
def ended (p : Process) (n : Nat) (fd : Int) (tail : List ServerEvent) : Process where
  descriptors := Function.update p.descriptors fd none
  accepts := p.accepts
  history := p.history ++ .read n :: .dropped n :: tail

end Process

/-- The two orders in which a dropped connection is closed and disconnected. -/
def Endings (n : Nat) (fd : Int) (owner : Option Owner) (tail : List ServerEvent) : Prop :=
  tail = [.closed fd owner, .onDisconnect n] ∨ tail = [.onDisconnect n, .closed fd owner]

/-- Whether a connection ends with this result of `recv`. -/
def RecvResult.ends {κ : Type} (cls : ConnectionClass κ) (self : κ) : RecvResult → Prop
  | .received [] => True
  | .fails errno => ¬ (errno = eagain ∨ errno = ewouldblock ∨ errno = eintr)
  | .received data => (cls.onRead data self).1 ≠ 0

/-- Whether a new connection comes that outlives its first `recv`. -/
def Round.Admits {κ : Type} (cls : ConnectionClass κ) (r : Round) : Prop :=
  r.accept ≠ -1 ∧ ∃ self, cls.createConnection r.accept = some self ∧ ¬ (r.recvs 0).ends cls self

namespace SocketObject
variable {κ : Type}

/-- However often an open object is closed, its descriptor is closed once. -/
theorem closes_succ {con : SocketObject κ} (opened : 0 ≤ con.mSocket) (times : Nat) (p : Process) :
    closes (times + 1) con p = ({ con with mSocket := -1 }, p.close con.mSocket) := by
  have idle : ∀ (times : Nat) (p : Process),
      closes times { con with mSocket := -1 } p = ({ con with mSocket := -1 }, p) := by
    intro times
    induction times with
    | zero => exact fun _ => rfl
    | succ times ih => exact fun p => ih p
  simp only [closes, close, if_pos opened, idle]

end SocketObject

namespace UdsServer
variable {κ : Type} {cls : ConnectionClass κ} {l : Int}

/-- What one visit can do: the connection is read and kept, or it is read and ended. -/
theorem handleIo_cases (cls : ConnectionClass κ) (res : RecvResult) (con : SocketObject κ) (p : Process)
    (opened : 0 ≤ con.mSocket) :
    (¬ res.ends cls con.self ∧
        ∃ self, handleIo cls res con p = (false, { con with self }, p.note [.read con.serial])) ∨
      res.ends cls con.self ∧ ∃ con' p' tail, handleIo cls res con p = (true, con', p') ∧
        Endings con.serial con.mSocket (p.descriptors con.mSocket) tail ∧
        con'.release p' = p.ended con.serial con.mSocket tail := by
  rcases res with (_ | ⟨first, data⟩) | errno
  · refine Or.inr ⟨trivial, _, _, _, rfl, Or.inr rfl, ?_⟩
    simp [SocketObject.release, SocketObject.destroy, opened, Process.close, Process.ended, Process.note]
  · cases calls : cls.onRead (first :: data) con.self with
    | mk times self =>
      cases times with
      | zero =>
        refine Or.inl ⟨by simp [RecvResult.ends, calls], self, ?_⟩
        simp only [handleIo, SocketObject.onRead, calls, SocketObject.closes, if_true]
        rw [decide_eq_false (not_lt.mpr opened)]
      | succ times =>
        refine Or.inr ⟨by simp [RecvResult.ends, calls], { con with mSocket := -1, self },
          ((p.note [.read con.serial]).note [.dropped con.serial]).close con.mSocket, _, ?_, Or.inl rfl, ?_⟩
        · have open' : 0 ≤ ({ con with self } : SocketObject κ).mSocket := opened
          simp [handleIo, SocketObject.onRead, calls, SocketObject.closes_succ open']
        · simp [SocketObject.release, SocketObject.destroy, Process.close, Process.ended, Process.note]
  · by_cases later : errno = eagain ∨ errno = ewouldblock ∨ errno = eintr
    · exact Or.inl ⟨not_not.mpr later, con.self, by simp only [handleIo, if_pos later]⟩
    · refine Or.inr ⟨later, { con with mSocket := -1 },
        ((p.note [.read con.serial]).note [.dropped con.serial]).close con.mSocket, _, ?_, Or.inl rfl, ?_⟩
      · simp only [handleIo, if_neg later, SocketObject.close, if_pos opened]
      · simp [SocketObject.release, SocketObject.destroy, Process.close, Process.ended, Process.note]

/-- The state of the table and of the process while `run` goes over it: the connections held are
open and connected, nothing else is open, and every other connection has come to its end. -/
structure Settled (l : Int) (held : List (SocketObject κ)) (p : Process) : Prop where
  distinct : (held.map (·.serial)).Nodup
  below : ∀ con ∈ held, con.serial < p.accepts
  opened : ∀ con ∈ held, 0 ≤ con.mSocket ∧ p.descriptors con.mSocket = some (.client con.serial)
  connected : ∀ con ∈ held, connectionLifecycle.phase p.history con.serial = some (.connected con.mSocket)
  listening : p.descriptors l = some .listener
  owned : ∀ fd owner, p.descriptors fd = some owner →
    (owner = .listener ∧ fd = l) ∨ ∃ con ∈ held, owner = .client con.serial ∧ fd = con.mSocket
  ended : ∀ n < p.accepts, (∀ con ∈ held, con.serial ≠ n) →
    ∃ fd, connectionLifecycle.phase p.history n = some (.turnedAway fd) ∨
      connectionLifecycle.phase p.history n = some (.gone fd)
  unseen : ∀ n ≥ p.accepts, connectionLifecycle.phase p.history n = some .unseen
  closes : ∀ fd owner, .closed fd owner ∈ p.history → ∃ n, owner = some (.client n)

namespace Settled
variable {held others : List (SocketObject κ)} {con : SocketObject κ} {p : Process}

theorem perm (settled : Settled l held p) (same : held.Perm others) : Settled l others p where
  distinct := (same.map _).nodup_iff.mp settled.distinct
  below con member := settled.below con (same.mem_iff.mpr member)
  opened con member := settled.opened con (same.mem_iff.mpr member)
  connected con member := settled.connected con (same.mem_iff.mpr member)
  listening := settled.listening
  owned fd owner has := (settled.owned fd owner has).imp_right fun ⟨con, member, own⟩ =>
    ⟨con, same.mem_iff.mp member, own⟩
  ended n old absent := settled.ended n old fun con member => absent con (same.mem_iff.mp member)
  unseen := settled.unseen
  closes := settled.closes

/-- Events about nobody leave everything as it is. -/
theorem foreign (settled : Settled l held p) {events : List ServerEvent}
    (noSubject : ∀ e ∈ events, ∀ n, connectionLifecycle.subject e ≠ some n)
    (noClose : ∀ fd owner, .closed fd owner ∉ events) : Settled l held (p.note events) := by
  have same : ∀ n, connectionLifecycle.phase (p.note events).history n = connectionLifecycle.phase p.history n :=
    fun n => Lifecycle.phase_append_other fun e member => noSubject e member n
  exact {
    distinct := settled.distinct
    below := settled.below
    opened := settled.opened
    connected := fun con member => (same con.serial).trans (settled.connected con member)
    listening := settled.listening
    owned := settled.owned
    ended := fun n old absent => by simpa only [same] using settled.ended n old absent
    unseen := fun n new => (same n).trans (settled.unseen n new)
    closes := fun fd owner member =>
      settled.closes fd owner ((List.mem_append.mp member).resolve_right (noClose fd owner)) }

/-- Two connections of the table have different numbers. -/
theorem apart (settled : Settled l (con :: others) p) {other : SocketObject κ} (member : other ∈ others) :
    con.serial ≠ other.serial := fun same =>
  (List.nodup_cons.mp settled.distinct).1 (List.mem_map.mpr ⟨other, member, same.symm⟩)

theorem about_read (con : SocketObject κ) :
    ∀ e ∈ [ServerEvent.read con.serial], connectionLifecycle.subject e = some con.serial := by
  simp [connectionLifecycle]

/-- A connection that is read and kept. -/
theorem keep (settled : Settled l (con :: others) p) (self : κ) :
    Settled l ({ con with self } :: others) (p.note [.read con.serial]) where
  distinct := settled.distinct
  below := List.forall_mem_cons.mpr (List.forall_mem_cons.mp settled.below)
  opened := List.forall_mem_cons.mpr (List.forall_mem_cons.mp settled.opened)
  connected := by
    obtain ⟨own, rest⟩ := List.forall_mem_cons.mp settled.connected
    refine List.forall_mem_cons.mpr ⟨?_, fun other member => ?_⟩
    · exact (Lifecycle.phase_append_own own (about_read con)).trans rfl
    · exact (Lifecycle.phase_append_apart (about_read con) (settled.apart member)).trans (rest other member)
  listening := settled.listening
  owned fd owner has := by
    refine (settled.owned fd owner has).imp_right fun ⟨one, member, own, place⟩ => ?_
    rcases List.mem_cons.mp member with rfl | later
    · exact ⟨_, List.mem_cons_self, own, place⟩
    · exact ⟨one, List.mem_cons_of_mem _ later, own, place⟩
  ended n old absent := by
    obtain ⟨other, _⟩ := List.forall_mem_cons.mp absent
    rw [Process.note_history, Lifecycle.phase_append_apart (about_read con) other]
    exact settled.ended n old (List.forall_mem_cons.mpr (List.forall_mem_cons.mp absent))
  unseen n new := by
    have low : con.serial < p.accepts := settled.below con List.mem_cons_self
    have high : p.accepts ≤ n := new
    rw [Process.note_history, Lifecycle.phase_append_apart (about_read con) (by omega)]
    exact settled.unseen n new
  closes fd owner member := settled.closes fd owner (by simpa using member)

theorem about_ended {n : Nat} {fd : Int} {tail : List ServerEvent} (ending : Endings n fd (some (.client n)) tail) :
    ∀ e ∈ .read n :: .dropped n :: tail, connectionLifecycle.subject e = some n := by
  rcases ending with rfl | rfl <;> simp [connectionLifecycle]

/-- However a connection is closed and disconnected, it is gone after it. -/
theorem phase_ended {n : Nat} {fd : Int} {tail : List ServerEvent}
    (reached : connectionLifecycle.phase p.history n = some (.connected fd))
    (ending : Endings n fd (some (.client n)) tail) :
    connectionLifecycle.phase (p.ended n fd tail).history n = some (.gone fd) := by
  refine (Lifecycle.phase_append_own reached (about_ended ending)).trans ?_
  rcases ending with rfl | rfl <;> simp [connectionLifecycle]

/-- No two of the listening socket and the connections have one descriptor. -/
theorem own_place (settled : Settled l (con :: others) p) : l ≠ con.mSocket ∧ ∀ d ∈ others, d.mSocket ≠ con.mSocket := by
  obtain ⟨_, mine⟩ := settled.opened con List.mem_cons_self
  constructor
  · intro same
    have listens := settled.listening
    rw [same, mine] at listens
    cases listens
  · intro d member same
    obtain ⟨_, its⟩ := settled.opened d (List.mem_cons_of_mem _ member)
    rw [same, mine] at its
    exact settled.apart member (by simpa using its)

/-- A connection that is read for the last time. -/
theorem finish (settled : Settled l (con :: others) p) {tail : List ServerEvent}
    (ending : Endings con.serial con.mSocket (p.descriptors con.mSocket) tail) :
    Settled l others (p.ended con.serial con.mSocket tail) := by
  rw [(settled.opened con List.mem_cons_self).2] at ending
  have other : ∀ n, con.serial ≠ n → connectionLifecycle.phase (p.ended con.serial con.mSocket tail).history n =
      connectionLifecycle.phase p.history n := fun _ => Lifecycle.phase_append_apart (about_ended ending)
  have own := phase_ended (settled.connected con List.mem_cons_self) ending
  obtain ⟨off, elsewhere⟩ := settled.own_place
  exact {
    distinct := (List.nodup_cons.mp settled.distinct).2
    below := fun d member => settled.below d (List.mem_cons_of_mem _ member)
    opened := fun d member => by
      obtain ⟨nonneg, its⟩ := settled.opened d (List.mem_cons_of_mem _ member)
      exact ⟨nonneg, (Function.update_of_ne (elsewhere d member) _ _).trans its⟩
    connected := fun d member =>
      (other d.serial (settled.apart member)).trans (settled.connected d (List.mem_cons_of_mem _ member))
    listening := (Function.update_of_ne off _ _).trans settled.listening
    owned := fun fd owner has => by
      have different : fd ≠ con.mSocket := by
        rintro rfl
        simp [Process.ended] at has
      have before : p.descriptors fd = some owner := (Function.update_of_ne different _ _).symm.trans has
      refine (settled.owned fd owner before).imp_right fun ⟨one, member, its, place⟩ => ?_
      refine ⟨one, (List.mem_cons.mp member).resolve_left ?_, its, place⟩
      rintro rfl
      exact different place
    ended := fun n old absent => by
      by_cases same : con.serial = n
      · exact ⟨con.mSocket, Or.inr (same ▸ own)⟩
      · rw [other n same]
        exact settled.ended n old (List.forall_mem_cons.mpr ⟨same, absent⟩)
    unseen := fun n new => by
      have low : con.serial < p.accepts := settled.below con List.mem_cons_self
      have high : p.accepts ≤ n := new
      rw [other n (by omega)]
      exact settled.unseen n new
    closes := fun fd owner member => by
      rcases List.mem_append.mp member with old | new
      · exact settled.closes fd owner old
      · have named : fd = con.mSocket ∧ owner = some (.client con.serial) := by
          rcases ending with rfl | rfl <;> simpa using new
        exact ⟨con.serial, named.2⟩ }

/-- Whatever the kernel hands out is nobody else's. -/
theorem fresh_place (settled : Settled l held p) {fd : Int} (free : p.descriptors fd = none) :
    l ≠ fd ∧ ∀ con ∈ held, con.mSocket ≠ fd := by
  constructor
  · rintro rfl
    simp [settled.listening] at free
  · rintro con member rfl
    simp [(settled.opened con member).2] at free

/-- An accepted descriptor for which there is a new object. -/
theorem connect (settled : Settled l held p) {fd : Int} (nonneg : 0 ≤ fd) (free : p.descriptors fd = none) (self : κ) :
    Settled l (⟨p.accepts, fd, self⟩ :: held) (p.admitted fd) := by
  obtain ⟨off, elsewhere⟩ := settled.fresh_place free
  have shape : (p.admitted fd).history = p.history ++ [.accepted p.accepts fd, .onConnect p.accepts] := by
    simp [Process.admitted, Process.accept]
  have about : ∀ e ∈ [.accepted p.accepts fd, .onConnect p.accepts], connectionLifecycle.subject e = some p.accepts := by
    simp [connectionLifecycle]
  have other : ∀ n, p.accepts ≠ n → connectionLifecycle.phase
      (p.history ++ [.accepted p.accepts fd, .onConnect p.accepts]) n = connectionLifecycle.phase p.history n :=
    fun _ => Lifecycle.phase_append_apart about
  have old : ∀ con ∈ held, p.accepts ≠ con.serial := fun con member => (settled.below con member).ne'
  exact {
    distinct := List.nodup_cons.mpr ⟨fun clash => by
      obtain ⟨con, member, same⟩ := List.mem_map.mp clash
      exact old con member same.symm, settled.distinct⟩
    below := List.forall_mem_cons.mpr ⟨Nat.lt_succ_self _, fun con member =>
      (settled.below con member).trans (Nat.lt_succ_self _)⟩
    opened := List.forall_mem_cons.mpr ⟨⟨nonneg, Function.update_self _ _ _⟩, fun con member =>
      ⟨(settled.opened con member).1,
        (Function.update_of_ne (elsewhere con member) _ _).trans (settled.opened con member).2⟩⟩
    connected := by
      rw [shape]
      refine List.forall_mem_cons.mpr ⟨?_, fun con member => ?_⟩
      · exact Lifecycle.phase_append_own (settled.unseen p.accepts le_rfl) about
      · rw [other _ (old con member)]
        exact settled.connected con member
    listening := (Function.update_of_ne off _ _).trans settled.listening
    owned := fun place owner has => by
      by_cases same : place = fd
      · subst same
        have new : some (Owner.client p.accepts) = some owner := by
          rw [← has]
          exact (Function.update_self place _ p.descriptors).symm
        exact Or.inr ⟨_, List.mem_cons_self, (Option.some.inj new).symm, rfl⟩
      · have before : p.descriptors place = some owner := (Function.update_of_ne same _ _).symm.trans has
        exact (settled.owned place owner before).imp_right fun ⟨con, member, its⟩ =>
          ⟨con, List.mem_cons_of_mem _ member, its⟩
    ended := fun n below absent => by
      obtain ⟨different, rest⟩ := List.forall_mem_cons.mp absent
      have older : n < p.accepts + 1 := below
      have apart : p.accepts ≠ n := different
      rw [shape, other n apart]
      exact settled.ended n (by omega) rest
    unseen := fun n new => by
      have above : p.accepts + 1 ≤ n := new
      rw [shape, other n (by omega)]
      exact settled.unseen n (by omega)
    closes := fun place owner member => by
      rw [shape] at member
      exact settled.closes place owner (by simpa using member) }

/-- An accepted descriptor for which there is no object. -/
theorem refuse (settled : Settled l held p) {fd : Int} (free : p.descriptors fd = none) :
    Settled l held (p.refused fd) := by
  obtain ⟨off, elsewhere⟩ := settled.fresh_place free
  have shape : (p.refused fd).history = p.history ++
      [.accepted p.accepts fd, .dropped p.accepts, .closed fd (some (.client p.accepts))] := by
    simp [Process.refused, Process.accept, Process.close]
  have table : (p.refused fd).descriptors = p.descriptors := by
    simp [Process.refused, Process.accept, Process.close, ← free]
  have about : ∀ e ∈ [.accepted p.accepts fd, .dropped p.accepts, .closed fd (some (.client p.accepts))],
      connectionLifecycle.subject e = some p.accepts := by
    simp [connectionLifecycle]
  have other : ∀ n, p.accepts ≠ n → connectionLifecycle.phase (p.refused fd).history n =
      connectionLifecycle.phase p.history n := fun n different => by
    rw [shape, Lifecycle.phase_append_apart about different]
  have own : connectionLifecycle.phase (p.refused fd).history p.accepts =
      some (.turnedAway fd) := by
    rw [shape, Lifecycle.phase_append_own (settled.unseen p.accepts le_rfl) about]
    simp [connectionLifecycle]
  exact {
    distinct := settled.distinct
    below := fun con member => (settled.below con member).trans (Nat.lt_succ_self _)
    opened := by
      rw [table]
      exact settled.opened
    connected := fun con member => (other _ (settled.below con member).ne').trans (settled.connected con member)
    listening := by rw [table, settled.listening]
    owned := by
      rw [table]
      exact settled.owned
    ended := fun n below absent => by
      by_cases same : p.accepts = n
      · exact ⟨fd, Or.inl (same ▸ own)⟩
      · have older : n < p.accepts + 1 := below
        rw [other n same]
        exact settled.ended n (by omega) absent
    unseen := fun n new => by
      have above : p.accepts + 1 ≤ n := new
      rw [other n (by omega)]
      exact settled.unseen n (by omega)
    closes := fun place owner member => by
      rw [shape, List.mem_append] at member
      rcases member with old | new
      · exact settled.closes place owner old
      · exact ⟨p.accepts, (by simpa using new : place = fd ∧ owner = some (.client p.accepts)).2⟩ }

end Settled

/-- The readings of a connection, so far. -/
def readings (p : Process) (n : Nat) : Nat := p.history.count (.read n)

/-- The calls of `on_connect` for it. -/
def connects (p : Process) (n : Nat) : Nat := p.history.count (.onConnect n)

theorem readings_foreign {p : Process} {events : List ServerEvent} {n : Nat} (none : .read n ∉ events) :
    readings (p.note events) n = readings p n := by
  simp [readings, List.count_eq_zero.mpr none]

theorem connects_foreign {p : Process} {events : List ServerEvent} {n : Nat} (none : .onConnect n ∉ events) :
    connects (p.note events) n = connects p n := by
  simp [connects, List.count_eq_zero.mpr none]

theorem readings_read (p : Process) (m n : Nat) :
    readings (p.note [.read m]) n = readings p n + if m = n then 1 else 0 := by
  simp [readings, List.count_singleton]

theorem ended_counts {p : Process} {m : Nat} {fd : Int} {owner : Option Owner} {tail : List ServerEvent}
    (ending : Endings m fd owner tail) (n : Nat) :
    readings (p.ended m fd tail) n = readings p n + (if m = n then 1 else 0) ∧
      connects (p.ended m fd tail) n = connects p n := by
  rcases ending with rfl | rfl <;> simp [readings, connects, Process.ended, List.count_cons]

theorem admitted_counts (p : Process) (fd : Int) (n : Nat) :
    readings (p.admitted fd) n = readings p n ∧
      connects (p.admitted fd) n = connects p n + if p.accepts = n then 1 else 0 := by
  simp [readings, connects, Process.admitted, Process.accept, List.count_singleton]

/-- What the loop does with the first connection of the table: it is tested and left alone, or it is
read and kept, or it is read and erased. -/
theorem sweep_cases (cls : ConnectionClass κ) (set : List Int) (recvs : Nat → RecvResult) (con : SocketObject κ)
    (rest : List (SocketObject κ)) (p : Process) (opened : 0 ≤ con.mSocket) :
    (con.mSocket ∉ set ∧ ∃ next, next = p.note [.fdIsset con.mSocket] ∧
      sweep cls set recvs (con :: rest) p = (con :: (sweep cls set recvs rest next).1, (sweep cls set recvs rest next).2)) ∨
    con.mSocket ∈ set ∧ ∃ later : Nat → RecvResult,
      ((∃ self next, next = (p.note [.fdIsset con.mSocket]).note [.read con.serial] ∧
        sweep cls set recvs (con :: rest) p =
          ({ con with self } :: (sweep cls set later rest next).1, (sweep cls set later rest next).2)) ∨
      ∃ tail, Endings con.serial con.mSocket (p.descriptors con.mSocket) tail ∧
        sweep cls set recvs (con :: rest) p =
          sweep cls set later rest ((p.note [.fdIsset con.mSocket]).ended con.serial con.mSocket tail)) := by
  by_cases reported : con.mSocket ∈ set
  · refine Or.inr ⟨reported, fun i => recvs (i + 1), ?_⟩
    rcases handleIo_cases cls (recvs 0) con (p.note [.fdIsset con.mSocket]) opened with
      ⟨_, self, kept⟩ | ⟨_, con', p', tail, closed, ending, gone⟩
    · refine Or.inl ⟨self, _, rfl, ?_⟩
      simp only [sweep, if_pos reported, kept, Bool.false_eq_true, if_false]
    · refine Or.inr ⟨tail, ending, ?_⟩
      simp only [sweep, if_pos reported, closed, if_true, gone]
  · refine Or.inl ⟨reported, _, rfl, ?_⟩
    simp only [sweep, if_neg reported]

/-- The loop over the table reads every connection whose descriptor is in the set once, and no
other one, whatever it erases. -/
theorem sweep_settled (cls : ConnectionClass κ) (set : List Int) (recvs : Nat → RecvResult)
    (front conns : List (SocketObject κ)) {p : Process} (settled : Settled l (front ++ conns) p) :
    Settled l (front ++ (sweep cls set recvs conns p).1) (sweep cls set recvs conns p).2 ∧
      ∀ n, readings (sweep cls set recvs conns p).2 n =
          readings p n + conns.countP (fun con => con.serial = n ∧ con.mSocket ∈ set) ∧
        connects (sweep cls set recvs conns p).2 n = connects p n := by
  induction conns generalizing recvs front p with
  | nil => exact ⟨settled, fun n => ⟨by simp [sweep], rfl⟩⟩
  | cons con rest ih =>
    have tested : Settled l (front ++ con :: rest) (p.note [.fdIsset con.mSocket]) :=
      settled.foreign (by simp [connectionLifecycle]) (by simp)
    have first := tested.perm List.perm_middle
    have opened := (first.opened con List.mem_cons_self).1
    have unread : ∀ n, readings (p.note [.fdIsset con.mSocket]) n = readings p n :=
      fun n => readings_foreign (by simp)
    have unconnected : ∀ n, connects (p.note [.fdIsset con.mSocket]) n = connects p n :=
      fun n => connects_foreign (by simp)
    rcases sweep_cases cls set recvs con rest p opened with
      ⟨silent, _, rfl, same⟩ | ⟨reported, later, ⟨self, _, rfl, kept⟩ | ⟨tail, ending, erased⟩⟩
    · rw [List.append_cons] at tested
      obtain ⟨after, counts⟩ := ih recvs (front ++ [con]) tested
      rw [same]
      refine ⟨by rw [List.append_cons]; exact after, fun n => ?_⟩
      obtain ⟨read, connected⟩ := counts n
      refine ⟨?_, connected.trans (unconnected n)⟩
      rw [read, unread, List.countP_cons]
      simp [silent]
    · have back : ({ con with self } :: (front ++ rest)).Perm (front ++ { con with self } :: rest) :=
        List.perm_middle.symm
      have next := (first.keep self).perm back
      rw [List.append_cons] at next
      obtain ⟨after, counts⟩ := ih later (front ++ [{ con with self }]) next
      rw [kept]
      refine ⟨by rw [List.append_cons]; exact after, fun n => ?_⟩
      obtain ⟨read, connected⟩ := counts n
      rw [connects_foreign (by simp), unconnected] at connected
      refine ⟨?_, connected⟩
      rw [read, readings_read, unread, List.countP_cons]
      simp only [reported, and_true, decide_eq_true_eq]
      omega
    · obtain ⟨after, counts⟩ := ih later front (first.finish ending)
      rw [erased]
      refine ⟨after, fun n => ?_⟩
      obtain ⟨read, connected⟩ := counts n
      obtain ⟨once, same⟩ := ended_counts (p := p.note [.fdIsset con.mSocket]) ending n
      rw [same, unconnected] at connected
      refine ⟨?_, connected⟩
      rw [read, once, unread, List.countP_cons]
      simp only [reported, and_true, decide_eq_true_eq]
      omega

/-- What the branch for a readable listening socket can do: no connection came, or it was refused,
or it was read and kept, or it was read and ended. -/
theorem acceptConnection_cases (cls : ConnectionClass κ) {r : Round} {s : UdsServer κ} (permits : s.Permits r) :
    (¬ r.Admits cls ∧ acceptConnection cls r s = (s, r.recvs)) ∨
    0 ≤ r.accept ∧ s.process.descriptors r.accept = none ∧ ∃ recvs,
      ((¬ r.Admits cls ∧ acceptConnection cls r s = ({ s with process := s.process.refused r.accept }, recvs)) ∨
        ∃ self,
          ((r.Admits cls ∧ acceptConnection cls r s =
            (⟨s.mSocket, s.mConnections ++ [⟨s.process.accepts, r.accept, self⟩],
              (s.process.admitted r.accept).note [.read s.process.accepts]⟩, recvs)) ∨
            ¬ r.Admits cls ∧ ∃ tail,
              Endings s.process.accepts r.accept ((s.process.admitted r.accept).descriptors r.accept) tail ∧
              acceptConnection cls r s =
                ({ s with process := (s.process.admitted r.accept).ended s.process.accepts r.accept tail }, recvs))) := by
  by_cases came : r.accept = -1
  · exact Or.inl ⟨fun admits => admits.1 came, by simp only [acceptConnection, if_pos came]⟩
  · obtain ⟨nonneg, free⟩ := permits.resolve_left came
    simp only [acceptConnection, if_neg came]
    cases made : cls.createConnection r.accept with
    | none => exact Or.inr ⟨nonneg, free, _, Or.inl ⟨fun ⟨_, self, chosen, _⟩ => by simp [made] at chosen, rfl⟩⟩
    | some self =>
      refine Or.inr ⟨nonneg, free, fun i => r.recvs (i + 1), Or.inr ?_⟩
      rcases handleIo_cases cls (r.recvs 0) ⟨s.process.accepts, r.accept, self⟩
        (s.process.admitted r.accept) nonneg with
        ⟨lasts, self', kept⟩ | ⟨ends, con', p', tail, closed, ending, gone⟩
      · refine ⟨self', Or.inl ⟨⟨came, self, made, lasts⟩, ?_⟩⟩
        simp only [Process.admitted] at kept
        simp only [kept, Bool.false_eq_true, if_false]
        rfl
      · refine ⟨self, Or.inr ⟨fun ⟨_, other, chosen, lasts⟩ => ?_, tail, ending, ?_⟩⟩
        · obtain rfl : self = other := Option.some.inj (made.symm.trans chosen)
          exact lasts ends
        simp only [← gone]
        simp only [Process.admitted] at closed
        simp only [closed, if_true]

/-- The branch settles the table again, with the new connection at its end or without it. A new
connection is read as often as it is connected, and no other one is. -/
theorem acceptConnection_settled (cls : ConnectionClass κ) {r : Round} {s : UdsServer κ} (permits : s.Permits r)
    (settled : Settled l s.mConnections s.process) :
    (acceptConnection cls r s).1.mSocket = s.mSocket ∧
    (∃ new, (acceptConnection cls r s).1.mConnections = s.mConnections ++ new ∧
      ∀ con ∈ new, s.process.descriptors con.mSocket = none) ∧
    Settled l (acceptConnection cls r s).1.mConnections (acceptConnection cls r s).1.process ∧
    ∀ n, connects s.process n ≤ connects (acceptConnection cls r s).1.process n ∧
      readings (acceptConnection cls r s).1.process n + connects s.process n =
        readings s.process n + connects (acceptConnection cls r s).1.process n := by
  rcases acceptConnection_cases cls permits with
    ⟨_, same⟩ | ⟨nonneg, free, recvs, ⟨_, refused⟩ | ⟨self, ⟨_, kept⟩ | ⟨_, tail, ending, ended⟩⟩⟩
  · rw [same]
    exact ⟨rfl, ⟨[], by simp⟩, settled, fun n => ⟨le_rfl, rfl⟩⟩
  · rw [refused]
    refine ⟨rfl, ⟨[], by simp⟩, settled.refuse free, fun n => ?_⟩
    simp [readings, connects, Process.refused, Process.accept, Process.close]
  · rw [kept]
    refine ⟨rfl, ⟨_, rfl, by simpa using free⟩, ?_, fun n => ?_⟩
    · exact ((settled.connect nonneg free self).keep self).perm (List.perm_append_singleton _ _).symm
    · obtain ⟨unread, connected⟩ := admitted_counts s.process r.accept n
      rw [readings_read, connects_foreign (by simp), unread, connected]
      constructor <;> omega
  · rw [ended]
    refine ⟨rfl, ⟨[], by simp⟩, (settled.connect nonneg free self).finish ending, fun n => ?_⟩
    obtain ⟨read, connected⟩ := ended_counts (p := s.process.admitted r.accept) ending n
    show _ ≤ connects (Process.ended _ _ _ _) n ∧
      readings (Process.ended _ _ _ _) n + _ = _ + connects (Process.ended _ _ _ _) n
    obtain ⟨unread, once⟩ := admitted_counts s.process r.accept n
    rw [read, connected, unread, once]
    constructor <;> omega

/-- A connection that comes and is taken is connected once, whatever its first `recv` gives. -/
theorem acceptConnection_connects {r : Round} {s : UdsServer κ} (nonneg : 0 ≤ r.accept) {self : κ}
    (made : cls.createConnection r.accept = some self) :
    connects (acceptConnection cls r s).1.process s.process.accepts = connects s.process s.process.accepts + 1 := by
  have came : r.accept ≠ -1 := by omega
  have once := (admitted_counts s.process r.accept s.process.accepts).2
  rw [if_pos rfl] at once
  simp only [acceptConnection, if_neg came, made]
  rcases handleIo_cases cls (r.recvs 0) ⟨s.process.accepts, r.accept, self⟩ (s.process.admitted r.accept) nonneg with
    ⟨_, self', kept⟩ | ⟨_, con', p', tail, closed, ending, gone⟩
  · simp only [Process.admitted] at kept
    simp only [kept, Bool.false_eq_true, if_false]
    exact (connects_foreign (by simp)).trans once
  · simp only [Process.admitted] at closed
    simp only [closed, if_true, gone]
    exact (ended_counts ending _).2.trans once

end UdsServer

end DockerPlugin
