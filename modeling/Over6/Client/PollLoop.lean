import Over6.Client.Responses

/-! # The loop of `vpn_main`

Once round the loop is a `poll`, a look at the heartbeats and a visit to each
descriptor that is ready. The descriptors are those of before the `poll`, but the
tun is asked for again at each of them. A run of the loop is a run of handler
calls, whatever tun descriptors come in.
-/

namespace Over6.Client

open MachineInt BoundedLoop EventRun

def call (s : State) : Event → Option State
  | .heartbeat now write => some (handleHeartbeat now write s)
  | .command env fuel => (handleCommand env fuel s).returned
  | .socket r env fuel => if r.Fits s.room then (handleSocket r env fuel s).returned else none
  | .tunnel r write₁ write₂ =>
      if r.Fits bufferSize then some (handleTunnel r write₁ write₂ s) else none

structure Answers where
  command : CommandEnv
  socket : ReadResult
  frames : Nat → SocketEnv
  tunnel : ReadResult
  write₁ : WriteResult
  write₂ : WriteResult
  fuel : Nat

/-- `poll()` fails, or says which descriptors have POLLRDNORM or POLLERR; then what the clock says
and what comes of the heartbeat and of each visit. -/
structure Round where
  poll : Option (Fd → Bool)
  now : Int
  beat : WriteResult
  answers : Nat → Answers

/-- The handlers are called one after the other; `calls` is kept for the proofs. -/
structure Vpn where
  state : State
  calls : List Event
  /-- The descriptors that were closed behind `exit:`. -/
  closed : Option (List Fd)

namespace Vpn

def closes (fds : Descriptors) (s : State) : List Fd :=
  [fds.socketFd, fds.commandReadFd, fds.responseWriteFd, s.tunFd].filter (0 ≤ ·)

def exit (fds : Descriptors) (v : Vpn) : Vpn := { v with closed := some (closes fds v.state) }

/-- `vpn_main` up to its loop. `connectServer` has returned `socketFd`, which is negative if it has
failed, and `old` is what an earlier run has left in the static variables. -/
def start (fds : Descriptors) (time₁ time₂ : Int) (old : State) : Vpn :=
  if 0 ≤ fds.socketFd then ⟨protocolInit fds time₁ time₂ old.socketBuffer, [], none⟩
  else exit fds ⟨old, [], none⟩

/-- Calls a handler if the descriptor is `here` and `exit:` has not been reached, and goes there if
the result says so. -/
def handle (fds : Descriptors) (here : Prop) [Decidable here] (leaves : Int → Bool) (e : Event)
    (v : Vpn) : Option Vpn :=
  if v.closed = none ∧ here then
    (call v.state e).map fun s =>
      let v' : Vpn := { v with state := s, calls := v.calls ++ [e] }
      if leaves s.ret then v'.exit fds else v'
  else some v

def commandLeaves (ret : Int) : Bool := ret = ipcCommandExit.toNat ∨ ret < 0

def fails (ret : Int) : Bool := ret ≠ 0

def visit (fds : Descriptors) (a : Answers) (fd : Fd) (v : Vpn) : Option Vpn :=
  (handle fds (fd = fds.commandReadFd) commandLeaves (.command a.command a.fuel) v).bind fun v =>
    (handle fds (fd = fds.socketFd) fails (.socket a.socket a.frames a.fuel) v).bind fun v =>
      handle fds (fd = v.state.tunFd) fails (.tunnel a.tunnel a.write₁ a.write₂) v

/-- The loop over the entries of `fds`, of which the first is number `i`. -/
def visits (fds : Descriptors) (ready : Fd → Bool) (answers : Nat → Answers) :
    Nat → List Fd → Vpn → Option Vpn
  | _, [], v => some v
  | i, fd :: rest, v =>
      if ready fd then (visit fds (answers i) fd v).bind (visits fds ready answers (i + 1) rest)
      else visits fds ready answers (i + 1) rest v

def entries (fds : Descriptors) (v : Vpn) : List Fd :=
  [fds.socketFd, fds.commandReadFd] ++ if 0 ≤ v.state.tunFd then [v.state.tunFd] else []

/-- `poll` leaves `revents` at zero for a descriptor that is negative. -/
def reported (ready : Fd → Bool) (fd : Fd) : Bool := decide (0 ≤ fd) && ready fd

def round (fds : Descriptors) (v : Vpn) (t : Round) : Option Vpn :=
  if v.closed = none then
    match t.poll with
    | none => some (v.exit fds)
    | some ready =>
        (handle fds True fails (.heartbeat t.now t.beat) v).bind
          (visits fds (reported ready) t.answers 0 (v.entries fds))
  else none

/-! ## Handler calls -/

section Calls

variable {fds : Descriptors} {s s' : State} {v v' : Vpn} {e : Event} {here : Prop}
  {leaves : Int → Bool}

/-- A handler that is called after others that returned 0, `handle_tunnel` with a tun. -/
theorem step_of_call (hret : s.ret = 0)
    (htun : ∀ r write₁ write₂, e = .tunnel r write₁ write₂ → 0 ≤ s.tunFd)
    (h : call s e = some s') : step s e = some s' := by
  unfold step
  rw [if_pos hret]
  cases e with
  | heartbeat now write => exact h
  | command env fuel => exact h
  | socket r env fuel => exact h
  | tunnel r write₁ write₂ =>
      simp only [call, Option.ite_none_right_eq_some] at h
      simp only [htun r write₁ write₂ rfl, true_and, Option.ite_none_right_eq_some]
      exact h

inductive Handled (fds : Descriptors) (here : Prop) (leaves : Int → Bool) (e : Event) (v : Vpn) :
    Vpn → Prop
  | ended (h : v.closed ≠ none) : Handled fds here leaves e v v
  | elsewhere (hopen : v.closed = none) (h : ¬ here) : Handled fds here leaves e v v
  | stays (hopen : v.closed = none) (h : here) {s : State} (hcall : call v.state e = some s)
      (hret : leaves s.ret = false) :
      Handled fds here leaves e v { v with state := s, calls := v.calls ++ [e] }
  | left (hopen : v.closed = none) (h : here) {s : State} (hcall : call v.state e = some s)
      (hret : leaves s.ret = true) : Handled fds here leaves e v
        (exit fds { v with state := s, calls := v.calls ++ [e] })

theorem handle_handled [Decidable here] (h : handle fds here leaves e v = some v') :
    Handled fds here leaves e v v' := by
  rw [handle] at h
  by_cases hopen : v.closed = none
  · by_cases hhere : here
    · rw [if_pos ⟨hopen, hhere⟩] at h
      obtain ⟨s, hcall, rfl⟩ := Option.map_eq_some_iff.mp h
      cases hret : leaves s.ret with
      | false => exact .stays hopen hhere hcall hret
      | true => exact .left hopen hhere hcall hret
    · rw [if_neg (fun hboth => hhere hboth.2)] at h
      rw [← Option.some.inj h]
      exact .elsewhere hopen hhere
  · rw [if_neg (fun hboth => hopen hboth.1)] at h
    rw [← Option.some.inj h]
    exact .ended hopen

theorem ret_of_responded {flow : Flow State} (h : Responded s flow) :
    flow.state.ret = s.ret ∨ flow.state.ret = -1 := by
  cases h with
  | all hlog =>
      obtain ⟨new, rfl, _⟩ := hlog
      exact .inl rfl
  | gaveUp hlog => exact .inr rfl

/-- `handle_command` returns 1 for the exit command, 0 or -1. -/
theorem handleCommand_ret {env : CommandEnv} {fuel : Nat}
    (h : handleCommand env fuel s = .stopped s') : s'.ret = 1 ∨ s'.ret = 0 ∨ s'.ret = -1 := by
  unfold handleCommand at h
  split at h
  · simp only at h
    split at h
    · cases h
      exact .inl rfl
    · refine .inr ?_
      split at h
      · split at h
        · cases h
          exact .inl rfl
        · cases h
          exact .inr rfl
      · split at h
        · exact setTun_keeps (P := fun t => t.ret = 0 ∨ t.ret = -1) (fun _ _ ht => ht)
            (fun _ _ _ => .inr rfl) (.inl rfl) h
        · split at h
          · cases h
            exact ret_of_responded (respond_responded _ _ _ _)
          · cases h
            exact .inl rfl
  · cases h
    exact .inr (.inr rfl)

/-- The loop goes on with a result of 0 only. -/
theorem ret_of_not_commandLeaves {env : CommandEnv} {fuel : Nat}
    (h : call s (.command env fuel) = some s') (hret : commandLeaves s'.ret = false) :
    s'.ret = 0 := by
  have hnot : ¬ (s'.ret = 1 ∨ s'.ret < 0) := of_decide_eq_false hret
  rcases handleCommand_ret (Outcome.returned_eq_some.mp h) with hone | hzero | hfail
  · exact absurd (.inl hone) hnot
  · exact hzero
  · omega

theorem ret_of_not_fails (hret : fails s.ret = false) : s.ret = 0 :=
  not_not.mp (of_decide_eq_false hret)

end Calls

/-- The calls make a run of the client, none came behind one that did not return 0, and what has
been closed is still to be closed. -/
structure Sound (fds : Descriptors) (first : State) (v : Vpn) : Prop where
  ran : run step first v.calls = some v.state
  goesOn : v.closed = none → v.state.ret = 0
  shut : v.closed ≠ none → v.closed = some (closes fds v.state)

namespace Sound

variable {fds : Descriptors} {first : State} {v v' : Vpn} {e : Event} {here : Prop}
  {leaves : Int → Bool} {a : Answers} {fd : Fd}

theorem handled (h : Sound fds first v) (hh : Handled fds here leaves e v v')
    (htun : here → ∀ r write₁ write₂, e = .tunnel r write₁ write₂ → 0 ≤ v.state.tunFd)
    (hzero : ∀ s, call v.state e = some s → leaves s.ret = false → s.ret = 0) : Sound fds first v' := by
  have hmore : here → v.closed = none → ∀ s, call v.state e = some s →
      run step first (v.calls ++ [e]) = some s := fun hhere hopen s hcall =>
    run_snoc_iff.mpr ⟨v.state, h.ran, step_of_call (h.goesOn hopen) (htun hhere) hcall⟩
  cases hh with
  | ended => exact h
  | elsewhere => exact h
  | stays hopen hhere hcall hret =>
      exact ⟨hmore hhere hopen _ hcall, fun _ => hzero _ hcall hret,
        fun hover => absurd hopen hover⟩
  | left hopen hhere hcall =>
      exact ⟨hmore hhere hopen _ hcall, (fun hnone => by cases hnone), fun _ => rfl⟩

theorem visit (h : Sound fds first v) (hfd : 0 ≤ fd) (hv : Vpn.visit fds a fd v = some v') :
    Sound fds first v' := by
  obtain ⟨v₁, h₁, hv⟩ := Option.bind_eq_some_iff.mp hv
  obtain ⟨v₂, h₂, h₃⟩ := Option.bind_eq_some_iff.mp hv
  have hfirst := h.handled (handle_handled h₁) (fun _ _ _ _ he => by cases he)
    fun s => ret_of_not_commandLeaves
  have hsecond := hfirst.handled (handle_handled h₂) (fun _ _ _ _ he => by cases he)
    fun s _ => ret_of_not_fails
  exact hsecond.handled (handle_handled h₃) (fun hhere _ _ _ _ => hhere ▸ hfd)
    fun s _ => ret_of_not_fails

theorem visits {ready : Fd → Bool} (hready : ∀ fd, ready fd = true → 0 ≤ fd)
    {answers : Nat → Answers} {i : Nat} {rest : List Fd} (h : Sound fds first v)
    (hv : Vpn.visits fds ready answers i rest v = some v') : Sound fds first v' := by
  induction rest generalizing i v with
  | nil => exact Option.some.inj hv ▸ h
  | cons fd rest ih =>
      rw [Vpn.visits] at hv
      cases hfd : ready fd with
      | false =>
          rw [hfd] at hv
          exact ih h hv
      | true =>
          rw [hfd, if_pos rfl] at hv
          obtain ⟨u, hvisit, hrest⟩ := Option.bind_eq_some_iff.mp hv
          exact ih (h.visit (hready fd hfd) hvisit) hrest

theorem nonneg_of_reported {ready : Fd → Bool} (h : reported ready fd = true) : 0 ≤ fd :=
  of_decide_eq_true (Bool.and_eq_true_iff.mp h).1

theorem round {t : Round} (h : Sound fds first v) (hv : Vpn.round fds v t = some v') :
    Sound fds first v' := by
  rw [Vpn.round] at hv
  split at hv
  · split at hv
    · rw [← Option.some.inj hv]
      exact ⟨h.ran, (fun hnone => by cases hnone), fun _ => rfl⟩
    · obtain ⟨u, hbeat, hrest⟩ := Option.bind_eq_some_iff.mp hv
      have hu := h.handled (handle_handled hbeat) (fun _ _ _ _ he => by cases he)
        fun s _ => ret_of_not_fails
      exact hu.visits (fun fd => nonneg_of_reported) hrest
  · cases hv

end Sound

theorem sound_of_run {fds : Descriptors} {time₁ time₂ : Int} {old : State} {ts : List Round}
    {v : Vpn} (hconnected : 0 ≤ fds.socketFd)
    (hrun : run (round fds) (start fds time₁ time₂ old) ts = some v) :
    Sound fds (protocolInit fds time₁ time₂ old.socketBuffer) v := by
  refine run_invariant _ (fun _ _ _ h => h.round) ?_ hrun
  rw [start, if_pos hconnected]
  exact ⟨rfl, fun _ => rfl, fun hover => absurd rfl hover⟩

/-- `vpn_main` makes its handler calls in an order that the other results allow: each on the state
that the one before has left, none behind a call that did not return 0, and `handle_tunnel` with a
tun only. -/
theorem vpn_main_runs_handlers (fds : Descriptors) (time₁ time₂ : Int) (old : State)
    (ts : List Round) (v : Vpn) (hconnected : 0 ≤ fds.socketFd)
    (hrun : run (round fds) (start fds time₁ time₂ old) ts = some v) :
    runFrom fds time₁ time₂ old.socketBuffer v.calls = some v.state ∧
      (v.closed = none → v.state.ret = 0) :=
  ⟨(sound_of_run hconnected hrun).ran, (sound_of_run hconnected hrun).goesOn⟩

def zeroed : State := protocolInit ⟨0, 0, 0⟩ 0 0 (fun _ => 0) |>.setTunFd 0

def busy (_ : Nat) : Answers where
  command := .setTun 6
  socket := .bytes (Message.bytes ⟨sizeofMessage, msgHeartbeat⟩)
  frames := .prompt 0
  tunnel := .bytes [69, 1]
  write₁ := writesAll
  write₂ := writesAll
  fuel := 9

/-- A tun comes in while the socket is ready, and has a packet in the next round. -/
def twoRounds : List Round :=
  [⟨some fun fd => fd = 3 ∨ fd = 4, 0, writesAll, busy⟩,
    ⟨some fun fd => fd = 6, 30, writesAll, busy⟩]

theorem vpn_main_runs_handlers_twoRounds :
    ∃ v, run (round .usual) (start .usual 0 0 zeroed) twoRounds = some v ∧ v.calls.length = 5 ∧
      runFrom .usual 0 0 zeroed.socketBuffer v.calls = some v.state ∧ v.state.ret = 0 := by
  have hview : (run (round .usual) (start .usual 0 0 zeroed) twoRounds).map (fun v =>
      decide (v.calls.length = 5 ∧ v.closed = none)) = some true := by decide +kernel
  obtain ⟨v, hrun, hv⟩ := Option.map_eq_some_iff.mp hview
  obtain ⟨hcalls, hopen⟩ := of_decide_eq_true hv
  obtain ⟨hran, hret⟩ := vpn_main_runs_handlers .usual 0 0 zeroed twoRounds v (by decide) hrun
  exact ⟨v, hrun, hcalls, hran, hret hopen⟩

/-! ## The calls of one round -/

section Rounds

variable {fds : Descriptors} {s s' : State} {u v v' : Vpn} {e : Event} {here : Prop}
  {leaves : Int → Bool} {a : Answers} {fd : Fd}

theorem socketOnce_tunFd (env : SocketEnv) (s : State) :
    (socketOnce env s).state.tunFd = s.tunFd := by
  have hconsume : ∀ t msg, (consume msg t).state.tunFd = t.tunFd := by
    intro t msg
    rw [consume]
    split <;> rfl
  by_cases hcomplete : s.Complete
  · have hkept := (handleFrame_dispatch env s.header s).kept.tunFd
    rw [socketOnce_of_complete env hcomplete]
    cases hframe : handleFrame env s.header s with
    | next t =>
        rw [hframe, Flow.state_next] at hkept
        rw [Flow.bind_next, hconsume, hkept]
    | stop t =>
        rw [hframe] at hkept
        exact hkept
    | fault t =>
        rw [hframe] at hkept
        exact hkept
  · rw [socketOnce_of_not_complete env hcomplete]
    rfl

theorem handleSocket_tunFd {r : ReadResult} {env : Nat → SocketEnv} {fuel : Nat}
    (h : handleSocket r env fuel s = .stopped s') : s'.tunFd = s.tunFd := by
  cases r with
  | error =>
      rw [← Outcome.stopped.inj h]
      rfl
  | bytes bs =>
      rw [handleSocket] at h
      split at h
      · rw [← Outcome.stopped.inj h]
        rfl
      · have hloop := iterate_invariant (fun t : State => t.tunFd = s.tunFd)
          (fun k t ht => (socketOnce_tunFd (env k) t).trans ht) fuel 0 (receive bs s) rfl
        rw [h] at hloop
        exact hloop

/-- Only a command changes the tun. -/
theorem call_tunFd (he : ∀ env fuel, e ≠ .command env fuel) (h : call s e = some s') :
    s'.tunFd = s.tunFd := by
  cases e with
  | heartbeat now write =>
      rw [← Option.some.inj h]
      exact (handleHeartbeat_quiet now write s).tunFd
  | command env fuel => exact absurd rfl (he env fuel)
  | tunnel r write₁ write₂ =>
      simp only [call, Option.ite_none_right_eq_some] at h
      rw [← Option.some.inj h.2]
      exact (handleTunnel_quiet r write₁ write₂ s).tunFd
  | socket r env fuel =>
      simp only [call, Option.ite_none_right_eq_some] at h
      exact handleSocket_tunFd (Outcome.returned_eq_some.mp h.2)

/-- The calls that were planned are made, up to one that leads to `exit:`. -/
structure Carries (plan : List Event) (v v' : Vpn) : Prop where
  made : ∃ calls, v'.calls = v.calls ++ calls ∧ calls <+: plan ∧ (v'.closed = none → calls = plan)
  ended : v.closed ≠ none → v' = v

namespace Carries

theorem refl (v : Vpn) : Carries [] v v :=
  ⟨⟨[], (List.append_nil _).symm, List.prefix_refl _, fun _ => rfl⟩, fun _ => rfl⟩

theorem trans {p q : List Event} (h : Carries p v u) (h' : Carries q u v') :
    Carries (p ++ q) v v' := by
  obtain ⟨calls, hcalls, hpart, hall⟩ := h.made
  obtain ⟨calls', hcalls', hpart', hall'⟩ := h'.made
  refine ⟨?_, fun hover => (h'.ended (h.ended hover ▸ hover)).trans (h.ended hover)⟩
  by_cases hopen : u.closed = none
  · rw [hall hopen] at hcalls
    refine ⟨p ++ calls', ?_, (List.prefix_append_right_inj p).mpr hpart', fun hv => ?_⟩
    · rw [hcalls', hcalls, List.append_assoc]
    · rw [hall' hv]
  · have hsame := h'.ended hopen
    refine ⟨calls, hsame ▸ hcalls, hpart.trans (List.prefix_append p q), fun hv => ?_⟩
    exact absurd (hsame ▸ hv) hopen

theorem skipped (h : Handled fds here leaves e v v') (hnot : ¬ here) : v' = v := by
  cases h with
  | ended => rfl
  | elsewhere => rfl
  | stays _ hhere => exact absurd hhere hnot
  | left _ hhere => exact absurd hhere hnot

theorem called (h : Handled fds here leaves e v v') (hhere : here) : Carries [e] v v' := by
  cases h with
  | ended hover =>
      refine ⟨⟨[], (List.append_nil _).symm, List.nil_prefix, fun hv => ?_⟩, fun _ => rfl⟩
      exact absurd hv hover
  | elsewhere _ hnot => exact absurd hhere hnot
  | stays hopen =>
      exact ⟨⟨[e], rfl, List.prefix_refl _, fun _ => rfl⟩, fun hover => absurd hopen hover⟩
  | left hopen =>
      exact ⟨⟨[e], rfl, List.prefix_refl _, fun _ => rfl⟩, fun hover => absurd hopen hover⟩

end Carries

theorem Handled.tunFd (h : Handled fds here leaves e v v')
    (he : ∀ env fuel, e ≠ .command env fuel) : v'.state.tunFd = v.state.tunFd := by
  cases h with
  | ended => rfl
  | elsewhere => rfl
  | stays _ _ hcall => exact call_tunFd he hcall
  | left _ _ hcall => exact call_tunFd he hcall

/-- A visit calls the handlers that the number of the descriptor is good for. -/
theorem visit_cases (h : visit fds a fd v = some v') : ∃ v₁ v₂,
    Handled fds (fd = fds.commandReadFd) commandLeaves (.command a.command a.fuel) v v₁ ∧
      Handled fds (fd = fds.socketFd) fails (.socket a.socket a.frames a.fuel) v₁ v₂ ∧
      Handled fds (fd = v₂.state.tunFd) fails (.tunnel a.tunnel a.write₁ a.write₂) v₂ v' ∧
      v₂.state.tunFd = v₁.state.tunFd ∧ v'.state.tunFd = v₂.state.tunFd := by
  obtain ⟨v₁, h₁, h⟩ := Option.bind_eq_some_iff.mp h
  obtain ⟨v₂, h₂, h₃⟩ := Option.bind_eq_some_iff.mp h
  have hsocket := handle_handled h₂
  have htunnel := handle_handled h₃
  exact ⟨v₁, v₂, handle_handled h₁, hsocket, htunnel, hsocket.tunFd (fun _ _ he => by cases he),
    htunnel.tunFd fun _ _ he => by cases he⟩

theorem visit_socket (hcommand : fds.socketFd ≠ fds.commandReadFd)
    (htun : v.state.tunFd ≠ fds.socketFd) (h : visit fds a fds.socketFd v = some v') :
    Carries [.socket a.socket a.frames a.fuel] v v' ∧ v'.state.tunFd = v.state.tunFd := by
  obtain ⟨v₁, v₂, h₁, h₂, h₃, hsame, hsame'⟩ := visit_cases h
  obtain rfl := Carries.skipped h₁ hcommand
  have hnot : ¬ fds.socketFd = v₂.state.tunFd := fun heq => htun (hsame.symm.trans heq.symm)
  obtain rfl := Carries.skipped h₃ hnot
  exact ⟨.called h₂ rfl, hsame⟩

theorem visit_command (hsocket : fds.commandReadFd ≠ fds.socketFd)
    (htun : v'.state.tunFd ≠ fds.commandReadFd) (h : visit fds a fds.commandReadFd v = some v') :
    Carries [.command a.command a.fuel] v v' := by
  obtain ⟨v₁, v₂, h₁, h₂, h₃, hsame, hsame'⟩ := visit_cases h
  obtain rfl := Carries.skipped h₂ hsocket
  have hnot : ¬ fds.commandReadFd = v₂.state.tunFd := fun heq => htun (hsame'.trans heq.symm)
  obtain rfl := Carries.skipped h₃ hnot
  exact .called h₁ rfl

theorem visit_tunnel (hcommand : fd ≠ fds.commandReadFd) (hsocket : fd ≠ fds.socketFd)
    (h : visit fds a fd v = some v') :
    Carries (if v'.state.tunFd = fd then [.tunnel a.tunnel a.write₁ a.write₂] else []) v v' ∧
      v'.state.tunFd = v.state.tunFd := by
  obtain ⟨v₁, v₂, h₁, h₂, h₃, hsame, hsame'⟩ := visit_cases h
  obtain rfl := Carries.skipped h₁ hcommand
  obtain rfl := Carries.skipped h₂ hsocket
  refine ⟨?_, hsame'⟩
  split
  · rename_i heq
    exact .called h₃ (heq.symm.trans hsame')
  · rename_i hne
    obtain rfl := Carries.skipped h₃ fun heq => hne (hsame'.trans heq.symm)
    exact .refl v'

theorem visits_cons {ready : Fd → Bool} {answers : Nat → Answers} {i : Nat} {rest : List Fd}
    (h : visits fds ready answers i (fd :: rest) v = some v') :
    ∃ u, (if ready fd = true then visit fds (answers i) fd v else some v) = some u ∧
      visits fds ready answers (i + 1) rest u = some v' := by
  rw [visits] at h
  split at h
  · obtain ⟨u, hvisit, hrest⟩ := Option.bind_eq_some_iff.mp h
    rename_i hready
    exact ⟨u, by rw [if_pos hready]; exact hvisit, hrest⟩
  · rename_i hready
    exact ⟨v, if_neg hready, h⟩

end Rounds

/-- The calls of a round in which no result leads to `exit:`: the heartbeat and then, in the order of
`fds`, those for the descriptors that are ready. The tun is passed over if a command of this very
round has put `tun'` in its place. -/
def schedule (fds : Descriptors) (t : Round) (ready : Fd → Bool) (tun tun' : Fd) : List Event :=
  let socket := t.answers 0
  let command := t.answers 1
  let tunnel := t.answers 2
  [.heartbeat t.now t.beat] ++
    ((if reported ready fds.socketFd then [.socket socket.socket socket.frames socket.fuel] else []) ++
    ((if reported ready fds.commandReadFd then [.command command.command command.fuel] else []) ++
    (if reported ready tun ∧ tun' = tun then [.tunnel tunnel.tunnel tunnel.write₁ tunnel.write₂]
      else [])))

def planned (fds : Descriptors) (v : Vpn) (t : Round) : List Event :=
  match t.poll, round fds v t with
  | some ready, some v' => schedule fds t ready v.state.tunFd v'.state.tunFd
  | _, _ => []

/-- The tun has a number of its own. -/
def Apart (fds : Descriptors) (v : Vpn) : Prop :=
  v.state.tunFd ≠ fds.socketFd ∧ v.state.tunFd ≠ fds.commandReadFd

instance (fds : Descriptors) (v : Vpn) : Decidable (Apart fds v) :=
  inferInstanceAs (Decidable (_ ∧ _))

section Rounds

variable {fds : Descriptors} {v v' : Vpn} {t : Round} {ready : Fd → Bool}

/-- The visits to the entries, each of them made if `poll` has reported it. -/
theorem visits_carries {answers : Nat → Answers} {tun : Fd} (hsame : fds.commandReadFd ≠ fds.socketFd)
    (htun : v.state.tunFd = tun) (hapart : Apart fds v) (hapart' : Apart fds v')
    (h : visits fds (reported ready) answers 0 (v.entries fds) v = some v') :
    Carries ((if reported ready fds.socketFd then
          [.socket (answers 0).socket (answers 0).frames (answers 0).fuel] else []) ++
        ((if reported ready fds.commandReadFd then
          [.command (answers 1).command (answers 1).fuel] else []) ++
        (if reported ready tun ∧ v'.state.tunFd = tun then
          [.tunnel (answers 2).tunnel (answers 2).write₁ (answers 2).write₂] else []))) v v' := by
  obtain ⟨v₁, h₁, h⟩ := visits_cons h
  obtain ⟨v₂, h₂, h⟩ := visits_cons h
  -- The tun is the last of the entries, if there is one.
  have hlast : Carries (if reported ready tun ∧ v'.state.tunFd = tun then
      [.tunnel (answers 2).tunnel (answers 2).write₁ (answers 2).write₂] else []) v₂ v' ∧
      v'.state.tunFd = v₂.state.tunFd := by
    by_cases hthere : 0 ≤ tun ∧ reported ready tun = true
    · rw [htun, if_pos hthere.1] at h
      obtain ⟨v₃, h₃, h⟩ := visits_cons h
      obtain rfl := Option.some.inj h
      rw [if_pos hthere.2] at h₃
      have hvisit := visit_tunnel (htun ▸ hapart.2) (htun ▸ hapart.1) h₃
      simp only [hthere.2, true_and]
      exact hvisit
    · have hnone : ¬ reported ready tun = true := fun hr => hthere ⟨Sound.nonneg_of_reported hr, hr⟩
      have hstays : v₂ = v' := by
        rw [htun] at h
        split at h
        · obtain ⟨v₃, h₃, h⟩ := visits_cons h
          rw [if_neg hnone] at h₃
          exact (Option.some.inj h₃).trans (Option.some.inj h)
        · exact Option.some.inj h
      rw [if_neg fun hboth => hnone hboth.1, hstays]
      exact ⟨.refl v', rfl⟩
  have hcommand : Carries (if reported ready fds.commandReadFd then
      [.command (answers 1).command (answers 1).fuel] else []) v₁ v₂ := by
    split at h₂
    · rename_i hready
      rw [if_pos hready]
      exact visit_command hsame (hlast.2 ▸ hapart'.2) h₂
    · rename_i hready
      rw [if_neg hready, Option.some.inj h₂]
      exact .refl v₂
  have hsocket : Carries (if reported ready fds.socketFd then
      [.socket (answers 0).socket (answers 0).frames (answers 0).fuel] else []) v v₁ := by
    split at h₁
    · rename_i hready
      rw [if_pos hready]
      exact (visit_socket hsame.symm hapart.1 h₁).1
    · rename_i hready
      rw [if_neg hready, Option.some.inj h₁]
      exact .refl v₁
  exact hsocket.trans (hcommand.trans hlast.1)

theorem round_carries (hsame : fds.commandReadFd ≠ fds.socketFd) (hapart : Apart fds v)
    (hapart' : Apart fds v') (h : round fds v t = some v') : Carries (planned fds v t) v v' := by
  have hplan : ∀ ready, t.poll = some ready →
      planned fds v t = schedule fds t ready v.state.tunFd v'.state.tunFd := by
    intro ready hpoll
    rw [planned, hpoll, h]
  have hround := h
  rw [round] at hround
  split at hround
  · split at hround
    · rename_i hopen _ hpoll
      rw [planned, hpoll, ← Option.some.inj hround]
      refine ⟨⟨[], (List.append_nil _).symm, List.prefix_refl _, fun _ => rfl⟩, fun hover => ?_⟩
      exact absurd hopen hover
    · rename_i ready hpoll
      obtain ⟨u, hbeat, hrest⟩ := Option.bind_eq_some_iff.mp hround
      have hhandled := handle_handled hbeat
      have htun : u.state.tunFd = v.state.tunFd := hhandled.tunFd fun _ _ he => by cases he
      have hentries : v.entries fds = u.entries fds := by rw [entries, entries, htun]
      rw [hentries] at hrest
      rw [hplan ready hpoll]
      refine (Carries.called hhandled trivial).trans (visits_carries hsame htun ?_ hapart' hrest)
      rw [Apart, htun]
      exact hapart
  · cases hround

end Rounds

/-- Round for round, the handler of every descriptor that is ready is called, once and in the order
of `fds`, and no other is; a call that leads to `exit:` is the last of all. -/
theorem rounds_serve_ready (fds : Descriptors) (time₁ time₂ : Int) (old : State) (ts : List Round)
    (v : Vpn) (hconnected : 0 ≤ fds.socketFd) (hsame : fds.commandReadFd ≠ fds.socketFd)
    (hrun : run (round fds) (start fds time₁ time₂ old) ts = some v)
    (hapart : ∀ pre u, pre <+: ts → run (round fds) (start fds time₁ time₂ old) pre = some u →
      Apart fds u) :
    v.calls <+: outputs (round fds) (planned fds) (start fds time₁ time₂ old) ts ∧
      (v.closed = none →
        v.calls = outputs (round fds) (planned fds) (start fds time₁ time₂ old) ts) := by
  induction ts using List.reverseRecOn generalizing v with
  | nil =>
      have hstart : (start fds time₁ time₂ old).calls = [] := by
        rw [start, if_pos hconnected]
      rw [← Option.some.inj hrun, hstart]
      exact ⟨List.prefix_refl _, fun _ => rfl⟩
  | append_singleton ts t ih =>
      obtain ⟨u, hu, hround⟩ := run_snoc_iff.mp hrun
      have hbefore : ts <+: ts ++ [t] := List.prefix_append _ _
      have hcalls := (ih u hu fun pre w hpre hw => hapart pre w (hpre.trans hbefore) hw).2
      have hopen : u.closed = none := by
        by_contra hover
        rw [round, if_neg hover] at hround
        cases hround
      obtain ⟨calls, hmore, hpart, hall⟩ := (round_carries hsame (hapart ts u hbefore hu)
        (hapart _ v (List.prefix_refl _) hrun) hround).made
      rw [outputs_snoc (planned fds) t hu, hmore, hcalls hopen]
      refine ⟨(List.prefix_append_right_inj _).mpr hpart, fun hv => ?_⟩
      rw [hall hv]

theorem rounds_serve_ready_twoRounds :
    ∃ v, run (round .usual) (start .usual 0 0 zeroed) twoRounds = some v ∧ v.calls.length = 5 ∧
      v.calls = outputs (round .usual) (planned .usual) (start .usual 0 0 zeroed) twoRounds := by
  have hview : (run (round .usual) (start .usual 0 0 zeroed) twoRounds).map (fun v =>
      decide (v.calls.length = 5 ∧ v.closed = none)) = some true := by decide +kernel
  have hapart : ∀ pre ∈ twoRounds.inits, ∀ u ∈ run (round .usual) (start .usual 0 0 zeroed) pre,
      Apart .usual u := by decide +kernel
  obtain ⟨v, hrun, hv⟩ := Option.map_eq_some_iff.mp hview
  obtain ⟨hcalls, hopen⟩ := of_decide_eq_true hv
  have hserves := rounds_serve_ready .usual 0 0 zeroed twoRounds v (by decide) (by decide) hrun
    fun pre u hpre hu => hapart pre ((List.mem_inits pre twoRounds).mpr hpre) u hu
  exact ⟨v, hrun, hcalls, hserves.2 hopen⟩

/-! ## Descriptors -/

section Tun

variable {s s' : State} {e : Event}

end Tun

end Vpn

end Over6.Client
