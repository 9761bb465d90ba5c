import DockerPlugin.Library.Channel
import Mathlib.Data.PNat.Basic

namespace DockerPlugin
open Octets Channel

/-- What the kernel answers to one call of `send`: it accepts at most this many of the
bytes offered, and at least one, or it fails. -/
inductive SendResult
  | accepts (most : ℕ+)
  | fails
  deriving DecidableEq

/-- A connection with the answers that its coming calls of `send` will get, and the history
of what was written and sent. -/
structure UdsConnection where
  mSocket : Int
  sends : Nat → SendResult
  log : Log

def sizeMax : Nat := 2 ^ 64 - 1

namespace UdsConnection

/-- `send(m_socket, ptr, remaining, 0)`, the error result being `none`. -/
def send (c : UdsConnection) (ptr : Bytes) : Option Nat × UdsConnection :=
  let later : Nat → SendResult := fun i => c.sends (i + 1)
  match c.sends 0 with
  | .fails => (none, { c with sends := later, log := c.log ++ [.failed ptr] })
  | .accepts most =>
    (some (min most ptr.length), { c with sends := later, log := c.log ++ [.sent (ptr.take most)] })

/-- The loop of `write` over the bytes that remain. Each round sends at least one byte, so
as many rounds as bytes are enough. -/
def sendLoop : Nat → Bytes → UdsConnection → Bool × UdsConnection
  | _, [], c => (true, c)
  | 0, _ :: _, c => (true, c)
  | fuel + 1, b :: ptr, c =>
    match c.send (b :: ptr) with
    | (none, c) => (false, c)
    | (some res, c) => sendLoop fuel ((b :: ptr).drop res) c

def write (c : UdsConnection) (data : Bytes) : Nat × UdsConnection :=
  let c := { c with log := c.log ++ [.write data] }
  if c.mSocket < 0 then (sizeMax, c)
  else
    match sendLoop data.length data c with
    | (true, c) => (data.length, c)
    | (false, c) => (sizeMax, c)

def close (c : UdsConnection) : UdsConnection := { c with mSocket := -1 }

/-- Several buffers written one after the other by a caller that ignores the results. -/
def writes (c : UdsConnection) (buffers : List Bytes) : UdsConnection :=
  buffers.foldl (fun c data => (c.write data).2) c

@[simp] theorem writes_nil (c : UdsConnection) : c.writes [] = c := rfl

theorem writes_cons (c : UdsConnection) (data : Bytes) (rest : List Bytes) :
    c.writes (data :: rest) = (c.write data).2.writes rest := rfl

theorem writes_append (c : UdsConnection) (front back : List Bytes) :
    c.writes (front ++ back) = (c.writes front).writes back := by
  simp only [writes, List.foldl_append]

/-- What the socket has accepted of this connection. -/
def accepted (c : UdsConnection) : Bytes := Channel.accepted c.log

/-- What was passed to `write` on this connection. -/
def written (c : UdsConnection) : Bytes := Channel.buffers c.log

/-- An open connection all of whose sends succeed, however short they are. -/
structure Healthy (c : UdsConnection) : Prop where
  opened : 0 ≤ c.mSocket
  succeeds : ∀ i, c.sends i ≠ .fails

/-- The loop only appends events that hand nothing over, and leaves the socket open. -/
theorem sendLoop_frame (fuel : Nat) (ptr : Bytes) (c : UdsConnection) :
    (sendLoop fuel ptr c).2.mSocket = c.mSocket ∧ (sendLoop fuel ptr c).2.written = c.written := by
  induction fuel generalizing ptr c with
  | zero => cases ptr <;> exact ⟨rfl, rfl⟩
  | succ fuel ih =>
    cases ptr with
    | nil => exact ⟨rfl, rfl⟩
    | cons b ptr =>
      simp only [sendLoop, send]
      cases c.sends 0 with
      | fails => simp [written]
      | accepts most =>
        obtain ⟨socket, same⟩ := ih ((b :: ptr).drop (min most (b :: ptr).length))
          { c with sends := fun i => c.sends (i + 1), log := c.log ++ [.sent ((b :: ptr).take most)] }
        exact ⟨socket, by rw [same]; simp [written]⟩

@[simp] theorem write_mSocket (c : UdsConnection) (data : Bytes) : (c.write data).2.mSocket = c.mSocket := by
  have loop := (sendLoop_frame data.length data { c with log := c.log ++ [.write data] }).1
  simp only [write]
  split
  · rfl
  · split <;> (rename_i equal; rw [equal] at loop; exact loop)

@[simp] theorem write_written (c : UdsConnection) (data : Bytes) :
    (c.write data).2.written = c.written ++ data := by
  have loop := (sendLoop_frame data.length data { c with log := c.log ++ [.write data] }).2
  have handed : ({ c with log := c.log ++ [.write data] } : UdsConnection).written = c.written ++ data := by
    simp [written]
  rw [handed] at loop
  simp only [write]
  split
  · exact handed
  · split <;> (rename_i equal; rw [equal] at loop; exact loop)

@[simp] theorem writes_written (c : UdsConnection) (buffers : List Bytes) :
    (c.writes buffers).written = c.written ++ buffers.flatten := by
  induction buffers generalizing c with
  | nil => simp
  | cons data rest ih => rw [writes_cons, ih]; simp

@[simp] theorem writes_mSocket (c : UdsConnection) (buffers : List Bytes) :
    (c.writes buffers).mSocket = c.mSocket := by
  induction buffers generalizing c with
  | nil => rfl
  | cons data rest ih => rw [writes_cons, ih, write_mSocket]

theorem sendLoop_healthy {fuel : Nat} {ptr : Bytes} {c : UdsConnection} (healthy : c.Healthy)
    (enough : ptr.length ≤ fuel) :
    (sendLoop fuel ptr c).1 = true ∧ (sendLoop fuel ptr c).2.Healthy ∧
      (sendLoop fuel ptr c).2.accepted = c.accepted ++ ptr := by
  induction fuel generalizing ptr c with
  | zero =>
    cases ptr with
    | nil => exact ⟨rfl, healthy, by simp [sendLoop]⟩
    | cons b ptr => simp at enough
  | succ fuel ih =>
    cases ptr with
    | nil => exact ⟨rfl, healthy, by simp [sendLoop]⟩
    | cons b ptr =>
      simp only [sendLoop, send]
      cases first : c.sends 0 with
      | fails => exact absurd first (healthy.succeeds 0)
      | accepts most =>
        have positive := most.pos
        obtain ⟨done, after, all⟩ := @ih ((b :: ptr).drop (min most (b :: ptr).length))
          { c with sends := fun i => c.sends (i + 1), log := c.log ++ [.sent ((b :: ptr).take most)] }
          ⟨healthy.opened, fun i => healthy.succeeds (i + 1)⟩
          (by simp only [List.length_drop, List.length_cons] at enough ⊢; omega)
        refine ⟨done, after, ?_⟩
        rw [all]
        have whole : (b :: ptr).take most ++ (b :: ptr).drop (min most (b :: ptr).length) = b :: ptr := by
          rw [List.take_eq_take_min, List.take_append_drop]
        simp only [accepted, accepted_append, accepted_sent, List.append_assoc, whole]

/-- While sends succeed, however short, a write puts all its bytes on the wire. -/
theorem write_healthy {c : UdsConnection} (healthy : c.Healthy) (data : Bytes) :
    (c.write data).2.Healthy ∧ (c.write data).2.accepted = c.accepted ++ data := by
  obtain ⟨done, after, all⟩ := @sendLoop_healthy data.length data { c with log := c.log ++ [.write data] }
    ⟨healthy.opened, healthy.succeeds⟩ le_rfl
  have opened : ¬ c.mSocket < 0 := not_lt.mpr healthy.opened
  simp only [write, if_neg opened]
  split
  · rename_i equal
    rw [equal] at after all
    exact ⟨after, by simpa [accepted] using all⟩
  · rename_i equal
    simp [equal] at done

theorem writes_healthy {c : UdsConnection} (healthy : c.Healthy) (buffers : List Bytes) :
    (c.writes buffers).Healthy ∧ (c.writes buffers).accepted = c.accepted ++ buffers.flatten := by
  induction buffers generalizing c with
  | nil => simpa using healthy
  | cons data rest ih =>
    obtain ⟨after, all⟩ := write_healthy healthy data
    obtain ⟨last, total⟩ := ih after
    exact ⟨last, by rw [writes_cons, total, all, List.flatten_cons, List.append_assoc]⟩

end UdsConnection

end DockerPlugin
