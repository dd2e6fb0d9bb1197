import Over6.Droid.Frames

/-! # Writes that would block

`rawToOver6` takes the value of its second `write` for a number of bytes, also where it
is -1: `remain` and `used` grow by one, and the `memmove` begins in front of the buffer.
-/

namespace Over6.Droid

open EventRun

/-- The bytes that `rawToOver6` has written behind the header, if any. -/
def State.asked (s : State) : List UInt8 :=
  if s.ipBufferRemain = 0 then s.ipBuffer.content else s.ipBuffer.buf.load 0 s.ipBufferRemain

/-- The cells from `off` on lie in a buffer of `PIPE_BUF_LEN` bytes. -/
def Inside (off size : Int) : Prop := 0 ≤ off ∧ 0 ≤ size ∧ off + size ≤ pipeBufLen

/-- `rawToOver6` leaves the counters in range and in the buffer what the client has not taken:
nothing is removed or added by a write that fails. -/
structure Survives (payload : Write) (s s' : State) : Prop where
  fill : s'.ipBufferRemain ≤ s'.ipBuffer.used
  room : s'.ipBuffer.used ≤ pipeBufLen
  kept : s'.ipBuffer.content = s.ipBuffer.content.drop (payload.taken s.asked).length
  /-- `memmove(buffer, buffer + temp, *used - temp)`, both ends of it. -/
  inside : s.ipBuffer.used ≠ 0 →
    Inside (payload.ret s.asked.length) (s.ipBuffer.used - payload.ret s.asked.length) ∧
      Inside 0 (s.ipBuffer.used - payload.ret s.asked.length)

/-- There is something to write, and the write of it fails. -/
def Blocks (s : State) : Input → Prop
  | .data _ payload => s.ipBuffer.used ≠ 0 ∧ payload = .error
  | _ => False

instance (s : State) (e : Input) : Decidable (Blocks s e) :=
  match e with
  | .data .. => inferInstanceAs (Decidable (_ ∧ _))
  | .wait _ | .report _ | .packet .. | .round .. => inferInstanceAs (Decidable False)

/-! ## One call -/

section Call

variable {s : State}

theorem asked_length (s : State) :
    s.asked.length = if s.ipBufferRemain = 0 then s.ipBuffer.used else s.ipBufferRemain := by
  unfold State.asked
  split
  · exact s.ipBuffer.content_length
  · exact CellMemory.load_length _ _ _

theorem asked_le (h : Filled s) : s.asked.length ≤ s.ipBuffer.used := by
  have hfill := h.fill
  rw [asked_length]
  split <;> omega

/-- What the two branches of `rawToOver6` have in common. -/
theorem rawToOver6_buffer (header payload : Write) (rs : List Report)
    (hused : s.ipBuffer.used ≠ 0) :
    (rawToOver6 header payload rs s).ipBuffer =
      s.ipBuffer.dropFront (payload.ret s.asked.length) := by
  have hlen := asked_length s
  unfold rawToOver6
  rw [if_neg hused]
  split
  · rename_i hdone
    rw [hlen, if_pos hdone]
    rfl
  · rename_i hleft
    rw [hlen, if_neg hleft]
    rfl

theorem rawToOver6_idle (header payload : Write) (rs : List Report) (hused : s.ipBuffer.used = 0) :
    (rawToOver6 header payload rs s).ipBuffer = s.ipBuffer := by
  rw [rawToOver6, if_pos hused]

/-- The bytes of a write that takes a part are dropped, and those only. -/
theorem rawToOver6_kept (h : Filled s) (header : Write) {payload : Write} (rs : List Report)
    (hpayload : s.ipBuffer.used ≠ 0 → payload ≠ .error) :
    (rawToOver6 header payload rs s).ipBuffer.content =
      s.ipBuffer.content.drop (payload.taken s.asked).length := by
  by_cases hused : s.ipBuffer.used = 0
  · have hempty : s.ipBuffer.content = [] := by
      rw [← List.length_eq_zero_iff, Buffer.content_length, hused]
    rw [rawToOver6_idle header payload rs hused, hempty, List.drop_nil]
  · obtain ⟨k, hk, hret⟩ := Write.ret_of_ne_error (hpayload hused) s.asked.length
    have htaken : (payload.taken s.asked).length = k := by
      rw [Write.taken_of_ret hret, List.length_take, Nat.min_eq_left hk]
    rw [rawToOver6_buffer header payload rs hused, hret, htaken]
    exact s.ipBuffer.dropFront_content (hk.trans (asked_le h))

/-- Nothing but a failed write of the payload does any harm. -/
theorem survives_rawToOver6 (h : Filled s) (hrun : s.point ≠ .faulted) (header payload : Write)
    (rs : List Report) :
    Survives payload s (rawToOver6 header payload rs s) ↔
      ¬ (s.ipBuffer.used ≠ 0 ∧ payload = .error) := by
  constructor
  · rintro hsurvives ⟨hused, rfl⟩
    have hstart : (0 : Int) ≤ -1 := (hsurvives.inside hused).1.1
    omega
  · intro hnot
    have hpayload : s.ipBuffer.used ≠ 0 → payload ≠ .error := fun hused herr => hnot ⟨hused, herr⟩
    have hafter := h.rawToOver6 hrun header payload rs
    refine ⟨hafter.fill, hafter.room, rawToOver6_kept h header rs hpayload, fun hused => ?_⟩
    obtain ⟨k, hk, hret⟩ := Write.ret_of_ne_error (hpayload hused) s.asked.length
    have hle := asked_le h
    have hroom := h.room
    rw [hret]
    constructor <;> refine ⟨?_, ?_, ?_⟩ <;> omega

end Call

/-! ## Runs -/

/-- The buffer survives every call in a run exactly if no write of a payload fails in it. -/
theorem survives_iff (time : Int) (ipMem over6Mem : CellMemory UInt8) (es : List Input) (s : State)
    (hrun : runFrom time ipMem over6Mem es = some s) :
    (∀ pre header payload post u u', es = pre ++ .data header payload :: post →
        runFrom time ipMem over6Mem pre = some u → step u (.data header payload) = some u' →
          Survives payload u u') ↔
      ∀ pre e post u, es = pre ++ e :: post → runFrom time ipMem over6Mem pre = some u →
        ¬ Blocks u e := by
  have hcall : ∀ {pre header payload u u'}, runFrom time ipMem over6Mem pre = some u →
      step u (.data header payload) = some u' →
        (Survives payload u u' ↔ ¬ Blocks u (.data header payload)) := by
    intro pre header payload u u' hu hstep
    have hsteps := step_steps hstep
    have hrunning := hsteps.running
    cases hsteps with
    | data => exact survives_rawToOver6 (filled_runFrom hu) hrunning header payload _
  constructor
  · rintro hall pre e post u rfl hu hblocks
    obtain ⟨v, hv, hrest⟩ := run_append_iff.mp hrun
    obtain rfl := Option.some.inj (hu.symm.trans hv)
    obtain ⟨u', hstep, _⟩ := run_cons_iff.mp hrest
    cases e with
    | data header payload =>
        exact (hcall hu hstep).mp (hall pre header payload post u u' rfl hu hstep) hblocks
    | _ => exact hblocks
  · intro hnone pre header payload post u u' hsplit hu hstep
    exact (hcall hu hstep).mpr (hnone pre _ post u hsplit hu)

def readyRun : List Input :=
  [.wait [⟨.tun, true, false, false⟩, ⟨.over6, false, true, false⟩], .report [.bytes packet],
    .report []]

/-- The header does not get across, and three bytes of the packet do. -/
def narrowRun : List Input := readyRun ++ [.data .error (.took 3)]

def blockedRun : List Input := readyRun ++ [.data .error .error]

theorem survives_iff_narrowRun :
    ∃ u u', runZero readyRun = some u ∧ step u (.data .error (.took 3)) = some u' ∧
      Survives (.took 3) u u' := by
  obtain ⟨u', hrun⟩ : ∃ u', runZero narrowRun = some u' :=
    Option.isSome_iff_exists.mp (by decide +kernel)
  obtain ⟨u, hu, hrest⟩ := run_append_iff.mp hrun
  obtain ⟨v, hstep, _⟩ := run_cons_iff.mp hrest
  have hclean : clean step Blocks (initState 0 (fun _ => 0) fun _ => 0) narrowRun = true := by
    decide +kernel
  exact ⟨u, v, hu, hstep, (survives_iff 0 _ _ narrowRun u' hrun).mpr (not_bad_of_clean hclean)
    readyRun _ _ [] u v rfl hu hstep⟩

/-- With twenty bytes in the buffer, both counters are 21 behind two writes that fail, and the
`memmove` reads in front of the buffer. -/
theorem blocked_write_harms :
    ∃ u u', runZero readyRun = some u ∧ step u (.data .error .error) = some u' ∧
      u.ipBuffer.used = 20 ∧ u'.ipBuffer.used = 21 ∧ u'.ipBufferRemain = 21 ∧
      ¬ Survives .error u u' := by
  obtain ⟨u', hrun⟩ : ∃ u', runZero blockedRun = some u' :=
    Option.isSome_iff_exists.mp (by decide +kernel)
  obtain ⟨u, hu, hrest⟩ := run_append_iff.mp hrun
  obtain ⟨v, hstep, hend⟩ := run_cons_iff.mp hrest
  obtain rfl := Option.some.inj hend
  have hbefore : (runZero readyRun).map (fun s => s.ipBuffer.used) = some 20 := by decide +kernel
  have hafter : (runZero blockedRun).map (fun s => (s.ipBuffer.used, s.ipBufferRemain)) =
      some (21, 21) := by decide +kernel
  have hused : u.ipBuffer.used = 20 := by
    rw [show runZero readyRun = some u from hu] at hbefore
    exact Option.some.inj hbefore
  rw [hrun] at hafter
  obtain ⟨hgrown, hremain⟩ := Prod.mk.inj (Option.some.inj hafter)
  refine ⟨u, v, hu, hstep, hused, hgrown, hremain, fun hsurvives => ?_⟩
  have hkept := congrArg List.length hsurvives.kept
  rw [List.length_drop, Buffer.content_length, Buffer.content_length, hgrown, hused] at hkept
  omega

end Over6.Droid
