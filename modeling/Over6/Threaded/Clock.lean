import Over6.Threaded.Requests

/-! # The counter of `keepLiveThread`

One counter is the time since the last keepalive of the client and says when the next
heartbeat is due. `keepLiveThread` counts, `readThread` puts it back to zero.
-/

namespace Over6.Threaded

open EventRun

inductive Beats (c : Conn) (a : Answer) : Conn → Prop
  | goes (point : c.keeping = .check) (below : c.heartBeatCount < 60) :
      Beats c a { c with keeping := .tick }
  | stops (point : c.keeping = .check) (limit : 60 ≤ c.heartBeatCount) :
      Beats c a { c with keeping := .close }
  | ticks (point : c.keeping = .tick) :
      Beats c a { c with heartBeatCount := c.heartBeatCount + 1, keeping := .test }
  | due (point : c.keeping = .test) (turn : c.heartBeatCount % 20 = 0) :
      Beats c a { c with keeping := .send .lock }
  | skips (point : c.keeping = .test) (other : c.heartBeatCount % 20 ≠ 0) :
      Beats c a { c with keeping := .check }
  | sends {p : SendPoint} {sent : Sent} {mutex : Option Thread} (point : c.keeping = .send p)
      (failed : sent = .failed → a = .error) :
      Beats c a (Conn.afterHeartBeat sent { c with sendMutex := mutex })
  | closes (point : c.keeping = .close) : Beats c a { c with keeping := .ended }

/-- The parts of a connection that `readThread` and `keepLiveThread` go by. -/
structure Rests (c c' : Conn) : Prop where
  reading : c'.reading = c.reading
  message : c'.message = c.message
  address : c'.ipv4Address = c.ipv4Address
  keeping : c'.keeping = c.keeping
  count : c'.heartBeatCount = c.heartBeatCount

theorem Rests.refl (c : Conn) : Rests c c := ⟨rfl, rfl, rfl, rfl, rfl⟩

section Steps

variable {s s' : State} {i j : Nat} {c c' : Conn} {a : Answer}

theorem Beats.same (h : Beats c a c') :
    c'.reading = c.reading ∧ c'.message = c.message ∧ c'.ipv4Address = c.ipv4Address := by
  cases h <;> exact ⟨rfl, rfl, rfl⟩

theorem Beats.running (h : Beats c a c') : c.keeping ≠ .ended := by
  cases h <;> simp [*]

theorem stepKeep_beats (hc : s.conns[i]? = some c) (h : stepKeep s i c a = some s') :
    ∃ c', s'.conns[i]? = some c' ∧ Beats c a c' := by
  unfold stepKeep at h
  split at h
  · rename_i hpoint
    cases h
    refine ⟨_, at_set hc rfl _, ?_⟩
    by_cases hcount : c.heartBeatCount < 60
    · rw [if_pos hcount]
      exact .goes hpoint hcount
    · rw [if_neg hcount]
      exact .stops hpoint (Nat.not_lt.mp hcount)
  · rename_i hpoint
    cases h
    exact ⟨_, at_set hc rfl _, .ticks hpoint⟩
  · rename_i hpoint
    cases h
    refine ⟨_, at_set hc rfl _, ?_⟩
    by_cases hturn : c.heartBeatCount % 20 = 0
    · rw [if_pos hturn]
      exact .due hpoint hturn
    · rw [if_neg hturn]
      exact .skips hpoint hturn
  · rename_i p hpoint
    cases send_spec h with
    | locks => exact ⟨_, at_set hc rfl _, .sends hpoint nofun⟩
    | writes _ _ hwrite =>
        exact ⟨_, at_set hc rfl _, .sends hpoint (writeOnce_failed_iff hwrite).mp⟩
  · rename_i hpoint
    cases h
    exact ⟨_, at_set hc rfl _, .closes hpoint⟩
  · cases h

theorem stepWrite_rests (hc : s.conns[i]? = some c) (h : stepWrite s i c a = some s') :
    ∃ c', s'.conns[i]? = some c' ∧ Rests c c' := by
  unfold stepWrite at h
  split at h
  · split at h
    · cases h
    · cases h
      exact ⟨_, at_set hc rfl _, rfl, rfl, rfl, rfl, rfl⟩
  · cases send_spec h with
    | locks => exact ⟨_, at_set hc rfl _, rfl, rfl, rfl, rfl, rfl⟩
    | writes => exact ⟨_, at_set hc rfl _, rfl, rfl, rfl, rfl, rfl⟩
  · cases h

theorem stepTun_rests (hc : s.conns[i]? = some c) (h : stepTun s = some s') :
    ∃ c', s'.conns[i]? = some c' ∧ Rests c c' := by
  unfold stepTun at h
  split at h
  · cases h
  · obtain ⟨_, ⟨found, _, rfl⟩ | ⟨why, _, rfl⟩⟩ := locked_spec h
    · exact ⟨c, hc, .refl c⟩
    · exact ⟨c, hc, .refl c⟩
  · rename_i j buf hpoint
    split at h
    · cases h
    · rename_i d hd
      cases h
      by_cases hj : j = i
      · subst hj
        obtain rfl := Option.some.inj (hc.symm.trans hd)
        exact ⟨_, at_set hc rfl _, rfl, rfl, rfl, rfl, rfl⟩
      · exact ⟨c, (List.getElem?_set_ne hj).trans hc, .refl c⟩

/-- What an event is to the counter of connection `i`. -/
inductive Course (i : Nat) (c : Conn) (s : State) (e : Event) (s' : State) : Prop
  | reads {a : Answer} {c' : Conn} (event : e = .read i a) (after : s'.conns[i]? = some c')
      (keeping : c'.keeping = c.keeping)
  | beats {a : Answer} {c' : Conn} (event : e = .keep i a) (after : s'.conns[i]? = some c')
      (step : Beats c a c')
  | rests {c' : Conn} (other : ∀ a, e ≠ .read i a ∧ e ≠ .keep i a)
      (after : s'.conns[i]? = some c') (same : Rests c c')

theorem next_course {e : Event} (hc : s.conns[i]? = some c) (h : next s e = some s') :
    Course i c s e s' := by
  obtain ⟨hup, hnext⟩ := next_spec h
  have hothers : ∀ {k : Nat} {d d' : Conn}, Touches s k d d' s' → k ≠ i →
      ∃ c', s'.conns[i]? = some c' ∧ Rests c c' :=
    fun htouches hk => ⟨c, (htouches.others i hk.symm).trans hc, .refl c⟩
  cases e with
  | accept stale =>
      cases hnext
      exact .rests (fun a => ⟨by simp, by simp⟩)
        ((List.getElem?_append_left (List.getElem?_eq_some_iff.mp hc).1).trans hc) (.refl c)
  | read k a =>
      cases hnext with
      | reads hreads =>
          by_cases hk : k = i
          · subst hk
            obtain rfl := hreads.touches.eq_before hc
            exact .reads rfl hreads.touches.after hreads.keeping
          · obtain ⟨c', hc', hrests⟩ := hothers hreads.touches hk
            exact .rests (fun b => ⟨fun hb => hk (Event.read.inj hb).1, by simp⟩) hc' hrests
  | write k a =>
      cases hnext with
      | writes hwrites =>
          have hrests : ∃ c', s'.conns[i]? = some c' ∧ Rests c c' := by
            by_cases hk : k = i
            · subst hk
              refine stepWrite_rests (a := a) hc ?_
              simpa only [next, hup, Option.isSome_none, Bool.false_eq_true, if_false, hc,
                Option.bind_some] using h
            · exact hothers hwrites.touches hk
          obtain ⟨c', hc', hrests⟩ := hrests
          exact .rests (fun b => ⟨by simp, by simp⟩) hc' hrests
  | keep k a =>
      cases hnext with
      | keeps hkeeps =>
          by_cases hk : k = i
          · subst hk
            have hstep : stepKeep s k c a = some s' := by
              simpa only [next, hup, Option.isSome_none, Bool.false_eq_true, if_false, hc,
                Option.bind_some] using h
            obtain ⟨c', hc', hbeats⟩ := stepKeep_beats hc hstep
            exact .beats rfl hc' hbeats
          · obtain ⟨c', hc', hrests⟩ := hothers hkeeps.touches hk
            exact .rests (fun b => ⟨by simp, fun hb => hk (Event.keep.inj hb).1⟩) hc' hrests
  | packet buf =>
      cases hnext
      exact .rests (fun a => ⟨by simp, by simp⟩) hc (.refl c)
  | route =>
      have hstep : stepTun s = some s' := by
        simpa only [next, hup, Option.isSome_none, Bool.false_eq_true, if_false] using h
      obtain ⟨c', hc', hrests⟩ := stepTun_rests hc hstep
      exact .rests (fun a => ⟨by simp, by simp⟩) hc' hrests

end Steps

end Over6.Threaded
