import DockerPlugin.DescriptorRange

namespace DockerPlugin
open Octets

namespace UdsServer
variable {κ : Type} {cls : ConnectionClass κ}

/-- `uds_server::~uds_server`, and the destructors of the connections that are still in the table. -/
def destroy (s : UdsServer κ) : Process :=
  s.mConnections.foldl (fun p con => con.destroy p) (if 0 ≤ s.mSocket then s.process.close s.mSocket else s.process)

/-- The destructors of the connections close the descriptor of each of them, and no other one. -/
theorem destroy_connections {held : List (SocketObject κ)} {p : Process}
    (opened : ∀ con ∈ held, 0 ≤ con.mSocket ∧ p.descriptors con.mSocket = some (.client con.serial))
    (distinct : (held.map (·.mSocket)).Nodup) :
    (held.foldl (fun p con => con.destroy p) p).history =
        p.history ++ held.map (fun con => .closed con.mSocket (some (.client con.serial))) ∧
      ∀ fd, (held.foldl (fun p con => con.destroy p) p).descriptors fd =
        if fd ∈ held.map (·.mSocket) then none else p.descriptors fd := by
  induction held generalizing p with
  | nil => simp
  | cons con held ih =>
    obtain ⟨nonneg, own⟩ := opened con List.mem_cons_self
    obtain ⟨apart, others⟩ := List.nodup_cons.mp distinct
    have closes : con.destroy p = p.close con.mSocket := if_pos nonneg
    have still : ∀ other ∈ held, 0 ≤ other.mSocket ∧
        (p.close con.mSocket).descriptors other.mSocket = some (.client other.serial) := by
      intro other member
      obtain ⟨nonneg', own'⟩ := opened other (List.mem_cons_of_mem con member)
      have different : other.mSocket ≠ con.mSocket := fun same => apart (List.mem_map.mpr ⟨other, member, same⟩)
      exact ⟨nonneg', (Function.update_of_ne different _ _).trans own'⟩
    obtain ⟨history, descriptors⟩ := ih still others
    rw [List.foldl_cons, closes]
    refine ⟨?_, fun fd => ?_⟩
    · rw [history]
      simp [Process.close, own]
    · rw [descriptors]
      by_cases here : fd = con.mSocket
      · simp [Process.close, here]
      · simp [Process.close, here]

/-- What `plugin::plugin` makes of a server: it is bound to the path of the driver's name, and an error of
that is thrown. -/
def construct (driverName : Bytes) (socket : Except Nat Int) (listen : Option Nat) : UdsServer κ × Option BindError :=
  ({} : UdsServer κ).bind (bytes "/run/docker/plugins/" ++ driverName ++ bytes ".sock") socket listen

/-- Every life of a plugin's server, with what it leaves: the constructor throws, or the server is run some
times and destroyed with these connections in its table. -/
inductive Life (cls : ConnectionClass κ) : List (SocketObject κ) → Process → Prop
  | throws {driverName : Bytes} {socket : Except Nat Int} {listen : Option Nat} {s : UdsServer κ} {error : BindError} :
      construct driverName socket listen = (s, some error) → Life cls s.mConnections s.destroy
  | ends {l : Int} {rounds : List Round} {s : UdsServer κ} : Runs cls l rounds s → Life cls s.mConnections s.destroy

/-- The closing of a listening socket. -/
def closesListener : ServerEvent → Bool
  | .closed _ (some .listener) => true
  | _ => false

/-- What holds of a process when a life of a server is over. -/
structure Released (held : List (SocketObject κ)) (p : Process) : Prop where
  nothingOpen : ∀ fd, p.descriptors fd = none
  closedOnce : ∀ n fd, .accepted n fd ∈ p.history → p.history.count (.closed fd (some (.client n))) = 1
  listenerOnce : p.history.countP closesListener ≤ 1
  ownClosed : ∀ fd owner, .closed fd owner ∈ p.history →
    owner = some .listener ∨ ∃ n, owner = some (.client n) ∧ .accepted n fd ∈ p.history
  undisconnected : ∀ n, (∃ con ∈ held, con.serial = n) ↔ .onConnect n ∈ p.history ∧ .onDisconnect n ∉ p.history

/-- A server that could not be bound has no connections, and has opened nothing that it did not close. -/
theorem construct_throws {driverName : Bytes} {socket : Except Nat Int} {listen : Option Nat} {s : UdsServer κ}
    {error : BindError} (failed : construct driverName socket listen = (s, some error)) :
    s.mConnections = [] ∧ s.mSocket = -1 ∧
      (s.process = {} ∨ ∃ fd, s.process = (({} : Process).opened fd .listener).close fd) := by
  unfold construct bind at failed
  split at failed
  · obtain ⟨rfl, -⟩ := Prod.mk.inj failed
    exact ⟨rfl, rfl, .inl rfl⟩
  · cases socket with
    | error errno =>
      obtain ⟨rfl, -⟩ := Prod.mk.inj failed
      exact ⟨rfl, rfl, .inl rfl⟩
    | ok fd =>
      cases listen with
      | none => cases (Prod.mk.inj failed).2
      | some errno =>
        obtain ⟨rfl, -⟩ := Prod.mk.inj failed
        exact ⟨rfl, rfl, .inr ⟨fd, rfl⟩⟩

theorem Released.unbound : Released ([] : List (SocketObject κ)) {} where
  nothingOpen _ := rfl
  closedOnce n fd given := absurd given List.not_mem_nil
  listenerOnce := Nat.zero_le 1
  ownClosed fd owner closed := absurd closed List.not_mem_nil
  undisconnected n := by simp

theorem Released.unheard (fd : Int) :
    Released ([] : List (SocketObject κ)) ((({} : Process).opened fd .listener).close fd) where
  nothingOpen fd' := by
    by_cases here : fd' = fd
    · simp [Process.close, here]
    · simp [Process.close, Process.opened]
  closedOnce n fd' given := by simp [Process.close, Process.opened] at given
  listenerOnce := List.countP_le_length
  ownClosed fd' owner closed := by
    simp only [Process.close, Process.opened, Function.update_self, List.nil_append, List.mem_singleton,
      ServerEvent.closed.injEq] at closed
    exact .inl closed.2
  undisconnected n := by simp [Process.close, Process.opened]

/-- What the destructor leaves of a server that was run. -/
theorem Runs.destroy {l : Int} {rounds : List Round} {s : UdsServer κ} (runs : Runs cls l rounds s) :
    s.destroy.history = s.process.history ++ .closed l (some .listener) ::
        s.mConnections.map (fun con => .closed con.mSocket (some (.client con.serial))) ∧
      ∀ fd, s.destroy.descriptors fd = none := by
  obtain ⟨here, settled⟩ := runs.settled
  have table := settled.tableInvariant
  have nonneg : 0 ≤ s.mSocket := here ▸ runs.listening_nonneg
  have own : s.process.descriptors s.mSocket = some .listener := here ▸ settled.listening
  have still : ∀ con ∈ s.mConnections, 0 ≤ con.mSocket ∧
      (s.process.close s.mSocket).descriptors con.mSocket = some (.client con.serial) := by
    intro con member
    obtain ⟨nonneg', own'⟩ := table.opened con member
    have different : con.mSocket ≠ s.mSocket := by
      intro same
      rw [same, own] at own'
      cases own'
    exact ⟨nonneg', (Function.update_of_ne different _ _).trans own'⟩
  obtain ⟨history, descriptors⟩ := destroy_connections still table.distinctSockets
  rw [UdsServer.destroy, if_pos nonneg]
  refine ⟨?_, fun fd => ?_⟩
  · rw [history]
    simp [Process.close, ← here, own]
  · rw [descriptors]
    split
    · rfl
    · next closed =>
      by_cases listener : fd = s.mSocket
      · simp [Process.close, listener]
      · cases still' : s.process.descriptors fd with
        | none => simp [Process.close, listener, still']
        | some owner =>
          rcases settled.owned fd owner still' with ⟨-, same⟩ | ⟨con, member, -, same⟩
          · exact absurd (same.trans here.symm) listener
          · exact absurd (List.mem_map.mpr ⟨con, member, same.symm⟩) closed

/-- The place of a connection of the table is the one that `accept4` gave it. -/
theorem Settled.accepted_iff {held : List (SocketObject κ)} {p : Process} {l : Int} (settled : Settled l held p)
    {con : SocketObject κ} (member : con ∈ held) (fd : Int) :
    .accepted con.serial fd ∈ p.history ↔ con.mSocket = fd := by
  rw [← List.count_pos_iff, (Phase.counts (settled.connected con member)).1 fd, Phase.accepts]
  by_cases same : con.mSocket = fd <;> simp [same]

/-- A connection of the table is closed once by the destructors. -/
theorem count_destroyed {held : List (SocketObject κ)} (distinct : (held.map (·.serial)).Nodup)
    {con : SocketObject κ} (member : con ∈ held) :
    (held.map fun con => ServerEvent.closed con.mSocket (some (.client con.serial))).count
      (.closed con.mSocket (some (.client con.serial))) = 1 := by
  refine List.count_eq_one_of_mem ?_ (List.mem_map.mpr ⟨con, member, rfl⟩)
  have apart := List.pairwise_map.mp distinct
  refine List.pairwise_map.mpr (apart.imp fun different same => different ?_)
  exact Owner.client.inj (Option.some.inj (ServerEvent.closed.inj same).2)

theorem Runs.released {l : Int} {rounds : List Round} {s : UdsServer κ} (runs : Runs cls l rounds s) :
    Released s.mConnections s.destroy := by
  obtain ⟨-, settled⟩ := runs.settled
  have table := settled.tableInvariant
  obtain ⟨history, descriptors⟩ := runs.destroy
  -- What the destructor adds is about closing alone.
  have kept : ∀ e, (∀ fd owner, e ≠ .closed fd owner) → (e ∈ s.destroy.history ↔ e ∈ s.process.history) := by
    intro e other
    rw [history, List.mem_append, List.mem_cons, List.mem_map]
    refine or_iff_left ?_
    rintro (same | ⟨con, -, same⟩)
    · exact other _ _ same
    · exact other _ _ same.symm
  have accepted := fun n fd => kept (.accepted n fd) fun _ _ => ServerEvent.noConfusion
  exact {
    nothingOpen := descriptors
    closedOnce := fun n fd given => by
      have before := (accepted n fd).mp given
      have listener : ServerEvent.closed l (some .listener) ≠ .closed fd (some (.client n)) := by simp
      rw [history, List.count_append, List.count_cons_of_ne listener, table.closedOnce n fd before]
      by_cases present : ∃ con ∈ s.mConnections, con.serial = n
      · obtain ⟨con, member, rfl⟩ := present
        obtain rfl := (settled.accepted_iff member fd).mp before
        have undropped : .dropped con.serial ∉ s.process.history := fun dropped =>
          (table.dropped con.serial con.mSocket before).mp dropped con member rfl
        rw [if_neg undropped, count_destroyed settled.distinct member]
      · have absent : ∀ con ∈ s.mConnections, con.serial ≠ n := fun con member same => present ⟨con, member, same⟩
        have others : (s.mConnections.map fun con => ServerEvent.closed con.mSocket (some (.client con.serial))).count
            (.closed fd (some (.client n))) = 0 := by
          refine List.count_eq_zero.mpr fun member => ?_
          obtain ⟨con, inTable, same⟩ := List.mem_map.mp member
          exact absent con inTable (Owner.client.inj (Option.some.inj (ServerEvent.closed.inj same).2))
        rw [if_pos ((table.dropped n fd before).mpr absent), others]
    listenerOnce := by
      have before : s.process.history.countP closesListener = 0 := by
        refine List.countP_eq_zero.mpr fun e member closes => ?_
        cases e with
        | closed fd owner =>
          obtain ⟨n, rfl⟩ := settled.closes fd owner member
          exact Bool.noConfusion closes
        | _ => exact Bool.noConfusion closes
      have after : (s.mConnections.map fun con => ServerEvent.closed con.mSocket (some (.client con.serial))).countP
          closesListener = 0 := by simp [List.countP_eq_zero, closesListener]
      rw [history, List.countP_append, List.countP_cons, before, after]
      exact le_rfl
    ownClosed := fun fd owner closed => by
      rw [history, List.mem_append, List.mem_cons, List.mem_map] at closed
      rcases closed with old | listener | ⟨con, member, same⟩
      · obtain ⟨n, rfl, given⟩ := table.closesOwn fd owner old
        exact .inr ⟨n, rfl, (accepted n fd).mpr given⟩
      · exact .inl (ServerEvent.closed.inj listener).2
      · obtain ⟨rfl, rfl⟩ := ServerEvent.closed.inj same
        exact .inr ⟨con.serial, rfl, (accepted _ _).mpr ((settled.accepted_iff member _).mpr rfl)⟩
    undisconnected := fun n => by
      rw [kept _ fun _ _ => ServerEvent.noConfusion, kept _ fun _ _ => ServerEvent.noConfusion]
      exact table.registered n }

/-- However a server's life goes, nothing that it opened is left open at its end, nothing is closed
twice or by who did not open it, and `on_disconnect` was called for all that connected but those that
were there at the end. -/
theorem life_releases {held : List (SocketObject κ)} {p : Process} (life : Life cls held p) : Released held p := by
  cases life with
  | throws failed =>
    obtain ⟨nobody, unbound, same | ⟨fd, same⟩⟩ := construct_throws failed <;>
      rw [UdsServer.destroy, nobody, unbound, same]
    · exact Released.unbound
    · exact Released.unheard fd
  | ends runs => exact runs.released

/-- The first client has quit, and the second one is there when the server is destroyed. -/
def afterTwo : UdsServer Unit :=
  (threeRounds.take 2).foldl (fun s r => (s.run quitting r).2) (construct (bytes "p") (.ok 3) none).1

theorem afterTwo_runs : Runs quitting 3 (threeRounds.take 2) afterTwo :=
  .next (.next (@Runs.bound _ _ _ (bytes "/run/docker/plugins/p.sock") _ (by decide) rfl) (Or.inr ⟨by decide, rfl⟩))
    (Or.inr ⟨by decide, rfl⟩)

theorem life_releases_two : Released afterTwo.mConnections afterTwo.destroy :=
  life_releases (.ends afterTwo_runs)

example : afterTwo.mConnections.map (·.serial) = [1] := by decide

end UdsServer

end DockerPlugin
