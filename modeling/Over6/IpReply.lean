import Over6.Client.Addresses
import Over6.Client.Responses
import Over6.Droid.State
import Over6.Server.Output

/-! # The server's IP reply in the client's hands

The server counts `strlen` bytes into the payload and the client copies exactly these,
so the text ends where the heap behind the copy begins: the scan of the last address
always looks there, and takes in what digits it finds.
-/

namespace Over6

open MachineInt Journal

/-! ## The frames -/

/-- The reply of `process_client` that hands out entry `i`. -/
def Server.replyFrame (i : Server.Slot) : Frame := ⟨msgIpRsb, Server.ipReply (Server.slotText i)⟩

namespace Client

def replyAddresses (i : Server.Slot) : List Address :=
  [⟨13, 8, 0, UInt8.ofNat i⟩, ⟨0, 0, 0, 0⟩, ⟨166, 111, 8, 28⟩, ⟨166, 111, 8, 29⟩, ⟨8, 8, 8, 8⟩]

theorem replyFrame_payload (i : Server.Slot) : (Server.replyFrame i).payload =
    Address.text ⟨13, 8, 0, UInt8.ofNat i⟩ ++ spaced ([⟨0, 0, 0, 0⟩, ⟨166, 111, 8, 28⟩,
      ⟨166, 111, 8, 29⟩] ++ [⟨8, 8, 8, 8⟩]) := by
  have hfirst : Server.slotText i = Address.text ⟨13, 8, 0, UInt8.ofNat i⟩ := Server.slotText_eq i
  have hrest : Server.ascii " 0.0.0.0 " ++ Server.dns1 ++ Server.ascii " " ++ Server.dns2 ++
      Server.ascii " " ++ Server.dns3 = spaced ([⟨0, 0, 0, 0⟩, ⟨166, 111, 8, 28⟩,
        ⟨166, 111, 8, 29⟩] ++ [⟨8, 8, 8, 8⟩]) := by
    decide +kernel
  rw [← hrest, ← hfirst]
  simp only [Server.replyFrame, Server.ipReply, List.append_assoc]

theorem replyFrame_valid (i : Server.Slot) : (Server.replyFrame i).Valid := by
  have hlen := Server.ipReply_length i
  have hfive : sizeofMessage = 5 := rfl
  change (Server.ipReply (Server.slotText i)).length + sizeofMessage < 2 ^ 31
  omega

theorem replyFrame_good (i : Server.Slot) : ¬ BadReply (Server.replyFrame i).message.length := by
  have hlen := Server.ipReply_length i
  have hlong := Server.ipReply_length_gt (Server.slotText i)
  have hfive : sizeofMessage = 5 := rfl
  have hcap : bufferSize = 4194304 := rfl
  have hsize : replySize (Server.replyFrame i).message.length =
      (Server.ipReply (Server.slotText i)).length := replySize_message (replyFrame_valid i)
  rw [BadReply, hsize]
  omega

/-- What the five `READ_IP` calls make of a reply with `beyond` behind the copy. -/
theorem readIps_replyFrame (i : Server.Slot) (stale : Nat → Nat → UInt8) (beyond : List UInt8) :
    readIps stale ((Server.replyFrame i).payload ++ beyond) 5 =
      { ips := (replyAddresses i).dropLast.map Address.bytes ++
          [Address.read ⟨8, 8, 8, 8⟩ beyond]
        ptr := beyond.dropWhile passes
        seen := (Server.replyFrame i).payload.length + looked beyond } := by
  have hread := readIps_unended stale ⟨13, 8, 0, UInt8.ofNat i⟩
    [⟨0, 0, 0, 0⟩, ⟨166, 111, 8, 28⟩, ⟨166, 111, 8, 29⟩] ⟨8, 8, 8, 8⟩ beyond
  rw [← List.append_assoc, ← replyFrame_payload] at hread
  exact hread

/-! ## What the branch does with them -/

def Act.scans : Act → List (Nat × Nat)
  | scanned size seen => [(size, seen)]
  | _ => []

/-- The scans of copied replies: the size of the copy and how many cells were looked at. -/
def scans (log : List Act) : List (Nat × Nat) := gather Act.scans log

theorem respond_scans (write : Nat → WriteResult) (k : Nat) (answers : List (List UInt8))
    (s : State) : scans (respond write k answers s).state.log = scans s.log := by
  induction answers generalizing k s with
  | nil => rfl
  | cons first rest ih =>
      simp only [respond]
      split
      · rw [ih]
        exact List.append_nil _
      · simp [scans, State.fail, State.note, Act.scans]

/-- The branch has looked at nothing but the payload. -/
def Inside (f : Frame) (env : SocketEnv) (s : State) : Prop :=
  ∃ new, scans (handleFrame env f.message s).state.log = scans s.log ++ new ∧
    ∀ r ∈ new, r.1 = f.payload.length ∧ r.2 ≤ f.payload.length

/-- A pipe that takes all it is given has got the addresses, and the socket behind them. -/
def Quads (ips : List Address) (f : Frame) (env : SocketEnv) (s : State) : Prop :=
  (∀ k, TakesAll (env.response k)) →
    responses (handleFrame env f.message s).state.log =
      responses s.log ++ ((ips.map Address.bytes).flatten ++ leBytes 4 (sizeT 32 s.socketFd))

structure ParsedInside (ips : List Address) (f : Frame) (env : SocketEnv) (s : State) : Prop where
  inside : Inside f env s
  quads : Quads ips f env s

/-! ## Any reply -/

section Reply

variable {env : SocketEnv} {s : State} {f : Frame} {more : List UInt8}

theorem handleFrame_scans (hf : f.Valid) (hbytes : s.content = f.bytes ++ more)
    (htype : f.type = msgIpRsb) (hgood : ¬ BadReply f.message.length) :
    scans (handleFrame env f.message s).state.log = scans s.log ++
      [(f.payload.length, (readIps env.stale (f.payload ++ env.beyond) 5).seen)] := by
  rw [handleFrame_reply hf hbytes htype hgood, respond_scans]
  simp [scans, State.note, Act.scans]

/-- What a pipe that takes it gets. -/
theorem handleFrame_responses (hf : f.Valid) (hbytes : s.content = f.bytes ++ more)
    (htype : f.type = msgIpRsb) (hgood : ¬ BadReply f.message.length)
    (henv : ∀ k, TakesAll (env.response k)) :
    responses (handleFrame env f.message s).state.log = responses s.log ++
      ((readIps env.stale (f.payload ++ env.beyond) 5).ips.flatten ++
        leBytes 4 (sizeT 32 s.socketFd)) := by
  rw [handleFrame_reply hf hbytes htype hgood]
  generalize hanswers : (readIps env.stale (f.payload ++ env.beyond) 5).ips ++
    [leBytes 4 (sizeT 32 s.socketFd)] = answers
  generalize hstart : ((s.note (.dispatched f.message)).note
    (.resized f.payload.length s.socketNreads)).note (.scanned f.payload.length
      (readIps env.stale (f.payload ++ env.beyond) 5).seen) = t
  have hquiet : responses t.log = responses s.log := by
    rw [← hstart]
    simp [responses_note, Act.response]
  have hfour : ∀ bs ∈ answers, ∀ k, (env.response k).ret bs.length = bs.length := by
    intro bs hbs k
    have hlen : bs.length = 4 := by
      rw [← hanswers] at hbs
      rcases List.mem_append.mp hbs with hbs | hbs
      · exact readIps_length _ _ _ bs hbs
      · rw [List.mem_singleton.mp hbs, leBytes_length]
    exact henv k _ (by rw [hlen]; decide)
  obtain ⟨bs, hbs, _, hall⟩ := respond_responses env.response 0 answers t
  obtain ⟨u, hu⟩ := respond_of_obliging hfour 0 t
  rw [hbs, hquiet, hall u hu, ← hanswers, List.flatten_append, List.flatten_singleton]

end Reply

/-- A text that ends with a NUL is parsed inside its own bytes, whatever the addresses are. -/
theorem configText_parsedInside (ip mask dns1 dns2 dns3 : Address) {env : SocketEnv} {s : State}
    {more : List UInt8} (hbytes : s.content =
      (Frame.mk msgIpRsb (configText [ip, mask, dns1, dns2, dns3])).bytes ++ more) :
    ParsedInside [ip, mask, dns1, dns2, dns3] ⟨msgIpRsb, configText [ip, mask, dns1, dns2, dns3]⟩
      env s := by
  have hlen := configText_length ip [mask, dns1, dns2, dns3]
  have hip := ip.text_length
  have hrest := spaced_length [mask, dns1, dns2, dns3]
  simp only [List.length_append, List.length_cons, List.length_nil] at hlen hrest
  have hread : readIps env.stale (configText [ip, mask, dns1, dns2, dns3] ++ env.beyond) 5 = _ :=
    readIps_configText env.stale ip [mask, dns1, dns2, dns3] env.beyond
  generalize hf : Frame.mk msgIpRsb (configText [ip, mask, dns1, dns2, dns3]) = f at hbytes ⊢
  have hpayload : f.payload = configText [ip, mask, dns1, dns2, dns3] := hf ▸ rfl
  have htype : f.type = msgIpRsb := hf ▸ rfl
  have hfive : sizeofMessage = 5 := rfl
  have hvalid : f.Valid := by
    change f.payload.length + sizeofMessage < 2 ^ 31
    rw [hpayload]
    omega
  have hgood : ¬ BadReply f.message.length := by
    have hcap : bufferSize = 4194304 := rfl
    rw [BadReply, replySize_message hvalid, hpayload]
    omega
  refine ⟨⟨_, handleFrame_scans hvalid hbytes htype hgood, ?_⟩, fun henv => ?_⟩
  · intro r hr
    rw [List.mem_singleton.mp hr, hpayload, hread]
    exact ⟨rfl, Nat.le_refl _⟩
  · rw [handleFrame_responses hvalid hbytes htype hgood henv, hpayload, hread]

/-- DroidOver6Server, whose reply counts the NUL, hands out a text that its clients parse
inside the payload. -/
theorem droid_reply_parsedInside {env : SocketEnv} {s : State} {more : List UInt8}
    (hbytes : s.content = Droid.ipReply.bytes ++ more) :
    ParsedInside [⟨10, 10, 10, 2⟩, ⟨255, 255, 255, 0⟩, ⟨166, 111, 8, 28⟩, ⟨166, 111, 8, 29⟩,
      ⟨8, 8, 8, 8⟩] Droid.ipReply env s := by
  have hreply : Droid.ipReply = ⟨msgIpRsb, configText [⟨10, 10, 10, 2⟩, ⟨255, 255, 255, 0⟩,
      ⟨166, 111, 8, 28⟩, ⟨166, 111, 8, 29⟩, ⟨8, 8, 8, 8⟩]⟩ := by
    decide +kernel
  rw [hreply] at hbytes ⊢
  exact configText_parsedInside _ _ _ _ _ hbytes

/-- A digit lies behind the copy of a reply. -/
def digitBehind : SocketEnv := { SocketEnv.prompt 0 0 with beyond := [48] }

theorem droid_reply_parsedInside_digitBehind :
    ParsedInside [⟨10, 10, 10, 2⟩, ⟨255, 255, 255, 0⟩, ⟨166, 111, 8, 28⟩, ⟨166, 111, 8, 29⟩,
      ⟨8, 8, 8, 8⟩] Droid.ipReply digitBehind
        (receive Droid.ipReply.bytes (protocolInit .usual 0 0 fun _ => 0)) := by
  have hcontent : (receive Droid.ipReply.bytes (protocolInit .usual 0 0 fun _ => 0)).content =
      Droid.ipReply.bytes ++ [] := by
    rw [receive_content (State.Bounded.protocolInit .usual 0 0 _), List.append_nil]
    rfl
  exact droid_reply_parsedInside hcontent

/-! ## The server's reply -/

section Server

variable {i : Server.Slot} {env : SocketEnv} {s : State} {more : List UInt8}

/-- There is always one cell more. -/
theorem reply_not_inside (hbytes : s.content = (Server.replyFrame i).bytes ++ more) :
    ¬ Inside (Server.replyFrame i) env s := by
  intro ⟨new, hnew, hinside⟩
  rw [handleFrame_scans (replyFrame_valid i) hbytes rfl (replyFrame_good i),
    readIps_replyFrame] at hnew
  have hlast : (Server.replyFrame i).payload.length + looked env.beyond ≤
      (Server.replyFrame i).payload.length :=
    (hinside _ ((List.append_cancel_left hnew) ▸ List.mem_singleton.mpr rfl)).2
  have hpos : 0 < looked env.beyond := Nat.succ_pos _
  omega

/-- What is put on the pipe. -/
theorem reply_responses (hbytes : s.content = (Server.replyFrame i).bytes ++ more)
    (henv : ∀ k, TakesAll (env.response k)) :
    responses (handleFrame env (Server.replyFrame i).message s).state.log =
      responses s.log ++ (((replyAddresses i).dropLast.map Address.bytes).flatten ++
        (Address.read ⟨8, 8, 8, 8⟩ env.beyond ++ leBytes 4 (sizeT 32 s.socketFd))) := by
  rw [handleFrame_responses (replyFrame_valid i) hbytes rfl (replyFrame_good i) henv,
    readIps_replyFrame]
  simp only [List.flatten_append, List.flatten_singleton, List.append_assoc]

theorem replyAddresses_flatten (i : Server.Slot) :
    ((replyAddresses i).map Address.bytes).flatten =
      ((replyAddresses i).dropLast.map Address.bytes).flatten ++ [8, 8, 8, 8] := rfl

/-- The quads are right when the digits behind the payload leave the last octet as it is. -/
theorem reply_quads_iff (hbytes : s.content = (Server.replyFrame i).bytes ++ more) :
    Quads (replyAddresses i) (Server.replyFrame i) env s ↔
      ((∀ k, TakesAll (env.response k)) →
        toByte (toInt false (56 :: env.beyond.takeWhile Decimal.isDigit)) = 8) := by
  apply imp_congr_right
  intro henv
  rw [reply_responses hbytes henv, replyAddresses_flatten, List.append_assoc,
    List.append_cancel_left_eq, List.append_cancel_left_eq, List.append_cancel_right_eq]
  have hread : Address.read ⟨8, 8, 8, 8⟩ env.beyond =
      [8, 8, 8, toByte (toInt false (56 :: env.beyond.takeWhile Decimal.isDigit))] := rfl
  rw [hread]
  simp

/-- No reply is parsed inside its own bytes: the scan of the last address always goes on into what
lies behind the copy, and the address it makes of it is the right one only if the digits there
leave 8 as it is. -/
theorem reply_parsed_outside (hbytes : s.content = (Server.replyFrame i).bytes ++ more) :
    ¬ ParsedInside (replyAddresses i) (Server.replyFrame i) env s ∧
      (Quads (replyAddresses i) (Server.replyFrame i) env s ↔
        ((∀ k, TakesAll (env.response k)) →
          toByte (toInt false (56 :: env.beyond.takeWhile Decimal.isDigit)) = 8)) :=
  ⟨fun h => reply_not_inside hbytes h.inside, reply_quads_iff hbytes⟩

end Server

def firstReply : State :=
  receive (Server.replyFrame 2).bytes (protocolInit .usual 0 0 fun _ => 0)

theorem firstReply_content : firstReply.content = (Server.replyFrame 2).bytes ++ [] := by
  rw [firstReply, receive_content (State.Bounded.protocolInit .usual 0 0 _), List.append_nil]
  rfl

theorem reply_parsed_outside_firstReply :
    ¬ ParsedInside (replyAddresses 2) (Server.replyFrame 2) (.prompt 0 0) firstReply ∧
      Quads (replyAddresses 2) (Server.replyFrame 2) (.prompt 0 0) firstReply := by
  have hsame : Quads (replyAddresses 2) (Server.replyFrame 2) (.prompt 0 0) firstReply :=
    (reply_parsed_outside firstReply_content).2.mpr fun _ => by decide +kernel
  exact ⟨(reply_parsed_outside firstReply_content).1, hsame⟩

/-- The digit goes to the last address. -/
theorem reply_digit_behind :
    firstReply.content = (Server.replyFrame 2).bytes ++ [] ∧
      (∀ k, TakesAll (digitBehind.response k)) ∧
      responses (handleFrame digitBehind (Server.replyFrame 2).message firstReply).state.log =
        [13, 8, 0, 2, 0, 0, 0, 0, 166, 111, 8, 28, 166, 111, 8, 29, 8, 8, 8, 80] ++
          leBytes 4 (sizeT 32 firstReply.socketFd) ∧
      ¬ ParsedInside (replyAddresses 2) (Server.replyFrame 2) digitBehind firstReply := by
  have htakes : ∀ k, TakesAll (digitBehind.response k) := fun _ => writesAll_takesAll
  exact ⟨firstReply_content, htakes, reply_responses firstReply_content htakes,
    fun h => reply_not_inside firstReply_content h.inside⟩

end Client

end Over6
