import DockerPlugin.Interleavings
import DockerPlugin.WellFormedAnswers

namespace DockerPlugin
open Octets PluginConnection Http

namespace Plugin
variable {δ : Type}

/-- Whatever a method of the drivers throws can be answered. -/
def Answers (p : Plugin δ) : Prop := ∀ h fn, p.method h = some fn → ∀ req drivers, Answerable (fn req drivers).1

theorem activate_answers {p : Plugin δ} {fn} (found : p.method .pluginActivate = some fn) (req : EmptyType)
    (drivers : δ) : Answerable (fn req drivers).1 := by
  intro e thrown
  cases found
  cases thrown

theorem answers_empty : ({} : Plugin δ).Answers := by
  intro h fn found
  cases h <;> first | exact activate_answers found | cases found

/-- A plugin whose methods are those of two others. -/
theorem Answers.combine {p own other : Plugin δ} (answers : p.Answers) (new : own.Answers)
    (methods : ∀ h, h ≠ .pluginActivate → other.method h = own.method h ∨ other.method h = p.method h) :
    other.Answers := by
  intro h fn found
  by_cases activates : h = .pluginActivate
  · subst activates
    exact activate_answers found
  · rcases methods h activates with same | same
    · exact new h fn (same ▸ found)
    · exact answers h fn (same ▸ found)

section
variable {p : Plugin δ} (answers : p.Answers)
include answers

theorem Answers.registerVolume {drv : Volume.Driver δ} (own : (({} : Plugin δ).registerVolume drv).Answers) :
    (p.registerVolume drv).Answers := by
  refine answers.combine own fun h driven => ?_
  cases h <;> first | exact absurd rfl driven | exact Or.inl rfl | exact Or.inr rfl

theorem Answers.registerNetwork {drv : Network.Driver δ} (own : (({} : Plugin δ).registerNetwork drv).Answers) :
    (p.registerNetwork drv).Answers := by
  refine answers.combine own fun h driven => ?_
  cases h <;> first | exact absurd rfl driven | exact Or.inl rfl | exact Or.inr rfl

theorem Answers.registerIpam {drv : Ipam.Driver δ} (own : (({} : Plugin δ).registerIpam drv).Answers) :
    (p.registerIpam drv).Answers := by
  refine answers.combine own fun h driven => ?_
  cases h <;> first | exact absurd rfl driven | exact Or.inl rfl | exact Or.inr rfl

/-- Every request is replied to with a code that allows content. -/
theorem Answers.reply (url body : Bytes) (drivers : δ) :
    AllowsContent (p.answer url body drivers).reply.status.toInt := by
  rcases p.answer_status url body drivers with allows | ⟨h, fn, req, e, located, there, decoded, thrown, same⟩
  · exact allows
  · rw [← same]
    exact answers h fn there req drivers e thrown

end

end Plugin

namespace PluginHost
variable {δ : Type}

/-- The requests of one connection. -/
def requestsOf (n : Nat) (steps : List (PluginStep δ)) : List Delivery :=
  steps.filterMap fun
    | .request m d => if m = n then some d else none
    | _ => none

/-- The replies to one connection, each by the plugin and the drivers as they are when its request is complete. -/
def repliesTo (policy : InformationResult) (n : Nat) : PluginHost δ → List (PluginStep δ) → List Reply
  | _, [] => []
  | host, .request m d :: later =>
    let rest := repliesTo policy n (host.step policy (.request m d)) later
    if m = n then (host.plugin.answer d.message.url d.message.seenBody host.drivers).reply :: rest else rest
  | host, s :: later => repliesTo policy n (host.step policy s) later

theorem requestsOf_append (n : Nat) (steps more : List (PluginStep δ)) :
    requestsOf n (steps ++ more) = requestsOf n steps ++ requestsOf n more :=
  List.filterMap_append

section
variable {policy : InformationResult} {uds : Nat → UdsConnection} {drivers : δ} {streams : Nat → List Delivery}
  {events : List (HostEvent δ)}

/-- What is served of a connection and what it has still to deliver is its stream. -/
theorem requestsOf_served (streams : Nat → List Delivery) (events : List (HostEvent δ)) (n : Nat) :
    requestsOf n (served streams events).1 ++ (served streams events).2 n = streams n := by
  induction events using List.reverseRecOn with
  | nil => rfl
  | append_singleton events e ih =>
    rw [served_concat]
    by_cases waits : e.commits = false
    · rw [serveEvent_waits _ waits]
      exact ih
    cases e with
    | registerVolume | registerNetwork | registerIpam =>
      simp only [serveEvent, requestsOf_append]
      simpa [requestsOf] using ih
    | malformed => exact absurd rfl waits
    | callback i callback =>
      obtain rfl : callback = .onMessageComplete := by simpa [HostEvent.commits] using waits
      cases left : (served streams events).2 i with
      | nil => simpa [serveEvent, left] using ih
      | cons d rest =>
        simp only [serveEvent, left, requestsOf_append]
        by_cases here : n = i
        · subst here
          rw [left] at ih
          rw [Function.update_self, ← ih]
          simp [requestsOf]
        · rw [Function.update_of_ne here]
          simpa [requestsOf, Ne.symm here] using ih

/-- When all that a connection has to deliver has come, all of it is served. -/
theorem Serial.finished (serial : Serial policy uds drivers streams events) {n : Nat}
    (whole : received n events = (streams n).flatMap Delivery.callbacks) : (served streams events).2 n = [] := by
  have waiting : received n ((threads δ policy).cut events).2 =
      ((served streams events).2 n).flatMap Delivery.callbacks := by
    have parts := @received_cut _ policy events n
    rw [whole, ← serial.read n] at parts
    exact List.append_cancel_left parts
  cases left : (served streams events).2 n with
  | nil => rfl
  | cons d later =>
    obtain ⟨front, form, -⟩ := callbacks_of_post (serial.left n d (by rw [left]; exact List.mem_cons_self))
    have last : .onMessageComplete ∈ received n ((threads δ policy).cut events).2 := by
      rw [waiting, left, List.flatMap_cons, form]
      simp
    exact Bool.noConfusion (Threads.cut_waits events _ (mem_received.mp last))

end

theorem step_idle (policy : InformationResult) {host : PluginHost δ} (idle : ∀ n, (host.connections n).1.Idle) {m : Nat}
    {d : Delivery} (post : d.method = .httpPost) (n : Nat) :
    ((host.step policy (.request m d)).connections n).1.Idle := by
  by_cases here : n = m
  · subst here
    have served := (@serve_posts δ policy [d] (by simpa using post) (host.connection n) (idle n)).1
    simpa [step] using served
  · simpa [step, here] using idle n

/-- What is written to a connection is one reply for each of its requests. -/
theorem run_replies (policy : InformationResult) {steps : List (PluginStep δ)}
    (posts : ∀ m d, .request m d ∈ steps → d.method = .httpPost) (answers : ∀ s ∈ steps, (latest [s]).Answers)
    {host : PluginHost δ} (idle : ∀ n, (host.connections n).1.Idle) (sound : host.plugin.Answers) (n : Nat) :
    (host.run policy steps).written n = host.written n ++ (repliesTo policy n host steps).flatMap Reply.wire ∧
      (∀ reply ∈ repliesTo policy n host steps, AllowsContent reply.status.toInt) ∧
      (repliesTo policy n host steps).length = (requestsOf n steps).length := by
  induction steps generalizing host with
  | nil => exact ⟨(List.append_nil _).symm, fun reply member => absurd member List.not_mem_nil, rfl⟩
  | cons s later ih =>
    obtain ⟨own, others⟩ := List.forall_mem_cons.mp answers
    have next : ∀ {host' : PluginHost δ}, _ → _ → _ :=
      @ih (fun m d member => posts m d (List.mem_cons_of_mem s member)) others
    cases s with
    | registerVolume drv => exact next idle (sound.registerVolume own)
    | registerNetwork drv => exact next idle (sound.registerNetwork own)
    | registerIpam drv => exact next idle (sound.registerIpam own)
    | request m d =>
      have post := posts m d List.mem_cons_self
      obtain ⟨-, -, answered⟩ := step_request policy (idle m) post
      obtain ⟨written, allowed, count⟩ := next (step_idle policy idle post) sound
      have run : host.run policy (.request m d :: later) = (host.step policy (.request m d)).run policy later := rfl
      rw [run, written, repliesTo]
      by_cases here : m = n
      · subst here
        have requests : requestsOf m (.request m d :: later) = d :: requestsOf m later := by simp [requestsOf]
        rw [answered, if_pos rfl, requests, List.flatMap_cons, List.append_assoc, List.length_cons, List.length_cons,
          count]
        exact ⟨rfl, List.forall_mem_cons.mpr ⟨sound.reply _ _ _, allowed⟩, rfl⟩
      · have requests : requestsOf n (.request m d :: later) = requestsOf n later := by simp [requestsOf, here]
        have same : (host.step policy (.request m d)).written n = host.written n :=
          congrArg (fun c : HttpConnection × Bytes => c.1.uds.written) (Function.update_of_ne (Ne.symm here) _ _)
        rw [same, if_neg here, requests]
        exact ⟨rfl, allowed, count⟩

/-- A socket that something was written to, and that may have been closed then. -/
def Wrote (first now : UdsConnection) : Prop :=
  ∃ buffers, now.log = (first.writes buffers).log ∧ (0 ≤ now.mSocket → now = first.writes buffers)

theorem Wrote.accepted {first now : UdsConnection} (wrote : Wrote first now) (healthy : first.Healthy)
    (unused : first.log = []) : now.accepted = now.written := by
  obtain ⟨buffers, log, -⟩ := wrote
  have taken := (UdsConnection.writes_healthy healthy buffers).2
  have handed := first.writes_written buffers
  rw [UdsConnection.accepted, UdsConnection.accepted, unused] at taken
  rw [UdsConnection.written, UdsConnection.written, unused] at handed
  rw [UdsConnection.accepted, UdsConnection.written, log, taken, handed]
  rfl

theorem event_wrote (policy : InformationResult) {first : UdsConnection} {host : PluginHost δ} {n : Nat}
    (wrote : Wrote first (host.connections n).1.uds) (e : HostEvent δ) :
    Wrote first ((host.event policy e).connections n).1.uds := by
  by_cases elsewhere : e.connection? ≠ some n
  · rw [event_elsewhere policy elsewhere]
    exact wrote
  have here := not_not.mp elsewhere
  obtain ⟨buffers, log, same⟩ := wrote
  cases e with
  | registerVolume | registerNetwork | registerIpam => cases here
  | malformed m =>
    cases here
    have entry : (host.event policy (.malformed n)).connections n =
        ((host.connections n).1.close, (host.connections n).2) := Function.update_self ..
    rw [entry]
    exact ⟨buffers, log, fun opened => absurd opened (by decide : ¬ 0 ≤ (-1 : Int))⟩
  | callback m callback =>
    cases here
    by_cases opened : 0 ≤ (host.connections n).1.uds.mSocket
    · obtain ⟨more, after⟩ := getSettings_writes callback (host.connection n)
      have before : (host.connection n).http.uds = first.writes buffers := same opened
      rw [before, ← UdsConnection.writes_append] at after
      have entry :
          (host.putBack n (onRead policy (pluginHttpConnection δ) [callback] (host.connection n))).connections n = _ :=
        Function.update_self ..
      rw [event, if_pos opened, entry, onRead]
      refine ⟨buffers ++ more, ?_, fun still => ?_⟩
      · rw [← after]
        dsimp only
        split <;> rfl
      · dsimp only at still ⊢
        split at still
        · exact absurd still (by decide : ¬ 0 ≤ (-1 : Int))
        · next goesOn =>
          rw [if_neg goesOn]
          exact after
    · rw [event, if_neg opened]
      exact ⟨buffers, log, same⟩

theorem events_wrote (policy : InformationResult) {first : UdsConnection} (events : List (HostEvent δ))
    {host : PluginHost δ} {n : Nat} (wrote : Wrote first (host.connections n).1.uds) :
    Wrote first ((events.foldl (event policy) host).connections n).1.uds := by
  induction events generalizing host with
  | nil => exact wrote
  | cons e events ih => exact ih (event_wrote policy wrote e)

end PluginHost

namespace HostEvent
variable {δ : Type}

/-- A plugin with nothing but what an event registers. -/
def registered : HostEvent δ → Plugin δ
  | registerVolume drv => ({} : Plugin δ).registerVolume drv
  | registerNetwork drv => ({} : Plugin δ).registerNetwork drv
  | registerIpam drv => ({} : Plugin δ).registerIpam drv
  | _ => {}

end HostEvent

namespace PluginHost
variable {δ : Type}

theorem serveEvent_registered {progress : List (PluginStep δ) × (Nat → List Delivery)} {e : HostEvent δ}
    {s : PluginStep δ} (member : s ∈ (serveEvent progress e).1) : s ∈ progress.1 ∨ latest [s] = e.registered := by
  cases e with
  | registerVolume | registerNetwork | registerIpam =>
    rcases List.mem_append.mp member with old | new
    · exact Or.inl old
    · rw [List.mem_singleton.mp new]
      exact Or.inr rfl
  | malformed => exact Or.inl member
  | callback i callback =>
    simp only [serveEvent] at member
    split at member
    · rcases List.mem_append.mp member with old | new
      · exact Or.inl old
      · rw [List.mem_singleton.mp new]
        exact Or.inr rfl
    · exact Or.inl member

theorem served_registered {streams : Nat → List Delivery} {events : List (HostEvent δ)} {s : PluginStep δ}
    (member : s ∈ (served streams events).1) : ∃ e ∈ events, latest [s] = e.registered := by
  induction events using List.reverseRecOn with
  | nil => exact absurd member List.not_mem_nil
  | append_singleton events e ih =>
    rw [served_concat] at member
    rcases serveEvent_registered member with old | new
    · obtain ⟨f, inside, same⟩ := ih old
      exact ⟨f, List.mem_append_left _ inside, same⟩
    · exact ⟨e, List.mem_append_right _ List.mem_cons_self, new⟩

end PluginHost

end DockerPlugin
