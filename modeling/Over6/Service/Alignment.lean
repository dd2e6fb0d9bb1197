import Mathlib.Data.List.Forall2
import Over6.Service.Pipes

/-! # The pipes stay aligned

Commands are a prefix code, so what is on the command pipe is the commands still
to be handled. Responses have no frames; they stay apart because the service
writes no `FETCH` command before it has read the response to the one before.
-/

namespace Over6.Service

open MachineInt BoundedLoop EventRun
open Client (ConfigOf stateBytes)

/-! ## Commands and answers -/

def commandBytes (fd : Nat) (command : UInt8) : List UInt8 :=
  command :: if command = commandSetTun then leBytes 4 fd else []

def commandCode (fd : Nat) : PrefixCode UInt8 UInt8 where
  encode := commandBytes fd
  Valid _ := True
  nonempty _ := List.cons_ne_nil _ _
  separated _ _ _ _ _ _ h := (List.cons.inj h).1

def answerSize (command : UInt8) : Nat :=
  if command = commandFetchState then 32 else 24

/-- What the `FETCH` command `h.1`, handled in the state `h.2`, is answered with. -/
def Answer (socketFd : Fd) (sent : List Frame) (h : UInt8 × Client.State) (answer : List UInt8) :
    Prop :=
  if h.1 = commandFetchState then answer = stateBytes h.2
  else ∃ f ∈ sent, f.type = msgIpRsb ∧ ConfigOf socketFd f answer

namespace Link

def fetched (l : Link) : List (UInt8 × Client.State) := l.handled.filter fun h => fetches h.1

end Link

def Java.Reading (j : Java) : Prop := ∃ length rest, j.todo = .read length :: rest

/-- Commands are decoded as they were written, and each group of bytes the service has read is the
response to the `FETCH` command behind which it was read. -/
structure Aligned (socketFd : Fd) (fd : Nat) (l : Link) : Prop where
  decoded : l.handled.map Prod.fst <+: l.java.commands
  allDecoded : l.pipe = [] → l.call.isNone → l.handled.map Prod.fst = l.java.commands
  tunFd : commandSetTun ∈ l.handled.map Prod.fst → l.client.tunFd = fd
  complete : ∀ (k : Nat) g, l.java.groups[k]? = some g →
    k + 1 < l.java.groups.length ∨ ¬ l.java.Reading →
      ∃ h, l.fetched[k]? = some h ∧ Answer socketFd l.sent h g
  begun : ∀ (k : Nat) g, l.java.groups[k]? = some g → g ≠ [] →
    ∃ h answer, l.fetched[k]? = some h ∧ Answer socketFd l.sent h answer ∧ g <+: answer

theorem Answer.length {socketFd : Fd} {sent : List Frame} {h : UInt8 × Client.State}
    {answer : List UInt8} (ha : Answer socketFd sent h answer) :
    answer.length = answerSize h.1 := by
  unfold Answer at ha
  unfold answerSize
  split at ha
  · rename_i hstate
    rw [ha, Client.stateBytes_length, if_pos hstate]
  · rename_i hconfig
    obtain ⟨f, _, _, hf⟩ := ha
    rw [hf.length, if_neg hconfig]

theorem Answer.mono {socketFd : Fd} {sent sent' : List Frame} {h : UInt8 × Client.State}
    {answer : List UInt8} (ha : Answer socketFd sent h answer) (hsub : sent ⊆ sent') :
    Answer socketFd sent' h answer := by
  by_cases hstate : h.1 = commandFetchState
  · rw [Answer, if_pos hstate] at ha ⊢
    exact ha
  · rw [Answer, if_neg hstate] at ha ⊢
    obtain ⟨f, hf, hrest⟩ := ha
    exact ⟨f, hsub hf, hrest⟩

theorem answerSize_pos (command : UInt8) : 0 < answerSize command := by
  unfold answerSize
  split <;> decide

/-! ## The calls to come -/

/-- The bytes of an argument that are still to be written. -/
def argsLeft : List Call → List UInt8
  | .write b :: rest => b :: argsLeft rest
  | _ => []

def owed : List Call → Nat
  | .read length :: rest => length + owed rest
  | _ => 0

theorem Java.reading_of_owed {j : Java} (h : 0 < owed j.todo) : j.Reading := by
  cases htodo : j.todo with
  | nil => simp [htodo, owed] at h
  | cons c rest =>
      rw [htodo] at h
      cases c with
      | read length => exact ⟨length, rest, htodo⟩
      | write b => exact absurd h (Nat.lt_irrefl 0)
      | writeByte c => exact absurd h (Nat.lt_irrefl 0)

/-- Each command is followed by its argument or by the reads for its response. -/
inductive Script (fd : Nat) : List Call → Prop
  | done : Script fd []
  | read {length : Nat} {rest : List Call} (hpos : 0 < length) (hargs : argsLeft rest = [])
      (h : Script fd rest) : Script fd (.read length :: rest)
  | write {b : UInt8} {rest : List Call} (howed : owed rest = 0) (h : Script fd rest) :
      Script fd (.write b :: rest)
  | writeByte {command : UInt8} {rest : List Call}
      (hargs : command :: argsLeft rest = commandBytes fd command)
      (howed : owed rest = if fetches command then answerSize command else 0)
      (h : Script fd rest) : Script fd (.writeByte command :: rest)

theorem Script.reads {fd : Nat} {rest : List Call} (h : Script fd rest)
    (hargs : argsLeft rest = []) (n : Nat) :
    Script fd (List.replicate n (.read 1) ++ rest) ∧
      argsLeft (List.replicate n (.read 1) ++ rest) = [] ∧
      owed (List.replicate n (.read 1) ++ rest) = n + owed rest := by
  induction n with
  | zero => exact ⟨h, hargs, (Nat.zero_add _).symm⟩
  | succ n ih =>
      obtain ⟨hscript, hnone, howed⟩ := ih
      refine ⟨.read Nat.one_pos hnone hscript, rfl, ?_⟩
      change 1 + owed (List.replicate n (.read 1) ++ rest) = _
      rw [howed]
      omega

theorem script_timerTask (fd : Nat) : Script fd timerTask := by
  have hdone : Script fd [] := .done
  obtain ⟨hscript, hargs, howed⟩ := hdone.reads rfl 32
  refine .writeByte ?_ ?_ hscript
  · exact congrArg (commandFetchState :: ·) hargs
  · exact howed

theorem argsLeft_writeInt (fd : Nat) : argsLeft (writeInt fd) = leBytes 4 fd := by
  have hmod : ∀ n, UInt8.ofNat (n % 256) = UInt8.ofNat n := by
    intro n
    apply UInt8.toNat_inj.mp
    simp
  simp [writeInt, argsLeft, leBytes, hmod]

theorem script_startVPN (fd : Nat) : Script fd (startVPN fd) := by
  have hint : Script fd (writeInt fd) :=
    .write rfl (.write rfl (.write rfl (.write rfl .done)))
  have hset : Script fd (.writeByte commandSetTun :: writeInt fd) := by
    refine .writeByte ?_ rfl hint
    rw [argsLeft_writeInt]
    rfl
  obtain ⟨hscript, hargs, howed⟩ := hset.reads rfl 4
  refine .writeByte rfl ?_ (.read (by decide) hargs hscript)
  change 20 + owed (List.replicate 4 (.read 1) ++ .writeByte commandSetTun :: writeInt fd) = _
  rw [howed]
  rfl

/-! ## Where the exchange stands -/

/-- How the bytes read, the bytes put on the response pipe and the `FETCH` commands go together,
with `due` bytes still to be read. -/
inductive Exchange (socketFd : Fd) (sent : List Frame) (fetched : List (UInt8 × Client.State))
    (groups : List (List UInt8)) (commands : List UInt8) (due : Nat) (responses : List UInt8)
    (replies requests : Nat) : Prop
  /-- Every `FETCH` command has its response. -/
  | settled (hdone : List.Forall₂ (Answer socketFd sent) fetched groups)
      (hput : responses = groups.flatten) (hall : commands.countP fetches = groups.length)
      (hdue : due = 0) (hreplies : replies = requests)
  /-- The last command is on its way. -/
  | asked {done : List (List UInt8)} {cs : List UInt8} {c : UInt8} (hc : fetches c = true)
      (hgroups : groups = done ++ [[]]) (hlast : commands = cs ++ [c])
      (hdone : List.Forall₂ (Answer socketFd sent) fetched done) (hput : responses = done.flatten)
      (hall : cs.countP fetches = done.length) (hdue : due = answerSize c)
      (hreplies : replies = requests)
  /-- The server has been asked for an address. -/
  | requested {done : List (List UInt8)} {prev : List (UInt8 × Client.State)} {s : Client.State}
      (hgroups : groups = done ++ [[]]) (hlast : fetched = prev ++ [(commandFetchConfig, s)])
      (hdone : List.Forall₂ (Answer socketFd sent) prev done) (hput : responses = done.flatten)
      (hall : commands.countP fetches = done.length + 1)
      (hdue : due = answerSize commandFetchConfig) (hreplies : replies + 1 = requests)
  /-- The response is on the pipe, or some of it. -/
  | answered {done : List (List UInt8)} {prev : List (UInt8 × Client.State)}
      {h : UInt8 × Client.State} {answer got put : List UInt8} (hgroups : groups = done ++ [got])
      (hlast : fetched = prev ++ [h]) (hdone : List.Forall₂ (Answer socketFd sent) prev done)
      (hanswer : Answer socketFd sent h answer) (hput : responses = done.flatten ++ put)
      (hread : got <+: put) (hpart : put <+: answer)
      (hall : commands.countP fetches = done.length + 1) (hdue : got.length + due = answer.length)
      (hreplies : replies = requests)

namespace Exchange

variable {socketFd : Fd} {sent : List Frame} {fetched : List (UInt8 × Client.State)}
  {groups : List (List UInt8)} {commands : List UInt8} {due : Nat} {responses : List UInt8}
  {replies requests : Nat}

theorem mono {sent' : List Frame}
    (h : Exchange socketFd sent fetched groups commands due responses replies requests)
    (hsub : sent ⊆ sent') :
    Exchange socketFd sent' fetched groups commands due responses replies requests := by
  have hmono : ∀ {xs ys}, List.Forall₂ (Answer socketFd sent) xs ys →
      List.Forall₂ (Answer socketFd sent') xs ys :=
    fun hxs => hxs.imp fun _ _ ha => ha.mono hsub
  cases h with
  | settled hdone hput hall hdue hreplies => exact .settled (hmono hdone) hput hall hdue hreplies
  | asked hc hgroups hlast hdone hput hall hdue hreplies =>
      exact .asked hc hgroups hlast (hmono hdone) hput hall hdue hreplies
  | requested hgroups hlast hdone hput hall hdue hreplies =>
      exact .requested hgroups hlast (hmono hdone) hput hall hdue hreplies
  | answered hgroups hlast hdone hanswer hput hread hpart hall hdue hreplies =>
      exact .answered hgroups hlast (hmono hdone) (hanswer.mono hsub) hput hread hpart hall hdue
        hreplies

/-- With nothing due, the last response has been read in full. -/
theorem settle (h : Exchange socketFd sent fetched groups commands 0 responses replies requests) :
    List.Forall₂ (Answer socketFd sent) fetched groups ∧ responses = groups.flatten ∧
      commands.countP fetches = groups.length ∧ replies = requests := by
  cases h with
  | settled hdone hput hall _ hreplies => exact ⟨hdone, hput, hall, hreplies⟩
  | asked _ _ _ _ _ _ hdue => exact absurd hdue (Nat.ne_of_lt (answerSize_pos _))
  | requested _ _ _ _ _ hdue => exact absurd hdue (Nat.ne_of_lt (answerSize_pos _))
  | @answered done prev h answer got put hgroups hlast hdone hanswer hput hread hpart hall hdue
      hreplies =>
      have hwhole : got = answer := (hread.trans hpart).eq_of_length hdue
      have hall' : put = answer := by
        rw [hwhole] at hread
        exact hpart.eq_of_length (Nat.le_antisymm hpart.length_le hread.length_le)
      subst hall' hwhole hlast hgroups hput
      refine ⟨List.rel_append hdone (.cons hanswer .nil), ?_, ?_, hreplies⟩
      · rw [List.flatten_append, List.flatten_singleton]
      · rw [hall, List.length_append]
        rfl

/-- The service reads some of what is on the pipe. -/
theorem read {bs : List UInt8} {n : Nat}
    (h : Exchange socketFd sent fetched groups commands due responses replies requests)
    (hbs : bs = (responses.drop groups.flatten.length).take n) (hsome : bs ≠ [])
    (hdue : bs.length ≤ due) :
    Exchange socketFd sent fetched (Java.addTo groups bs) commands (due - bs.length) responses
      replies requests := by
  have hnone : ∀ {done : List (List UInt8)}, groups = done ++ [[]] → responses ≠ done.flatten := by
    rintro done hgroups hput
    rw [hgroups, List.flatten_append, hput] at hbs
    apply hsome
    rw [hbs]
    simp
  cases h with
  | settled _ _ _ hnodue =>
      rw [hnodue, Nat.le_zero, List.length_eq_zero_iff] at hdue
      exact absurd hdue hsome
  | asked _ hgroups _ _ hput => exact absurd hput (hnone hgroups)
  | requested hgroups _ _ hput => exact absurd hput (hnone hgroups)
  | @answered done prev h answer got put hgroups hlast hdone hanswer hput hread hpart hall hsize
      hreplies =>
      have hadd : Java.addTo groups bs = done ++ [got ++ bs] := by
        rw [hgroups]
        clear hgroups hput hall hdone hsome hbs
        induction done with
        | nil => rfl
        | cons g done ih =>
            cases done with
            | nil => rfl
            | cons g' done => exact congrArg (g :: ·) ih
      have hread' : got ++ bs <+: put := by
        obtain ⟨more, rfl⟩ := hread
        have hdrop : responses.drop groups.flatten.length = more := by
          rw [hput, hgroups, List.flatten_append, List.flatten_singleton, ← List.append_assoc]
          exact List.drop_left
        rw [hbs, hdrop]
        exact (List.prefix_append_right_inj got).mpr (List.take_prefix n more)
      refine .answered hadd hlast hdone hanswer hput hread' hpart hall ?_ hreplies
      rw [List.length_append]
      omega

/-- A `FETCH` command that is still to be handled is the one the service waits for. -/
theorem next {hs tail : List UInt8} {c : UInt8}
    (h : Exchange socketFd sent fetched groups commands due responses replies requests)
    (hsplit : commands = hs ++ c :: tail) (hc : fetches c = true)
    (hcount : hs.countP fetches = fetched.length) :
    ∃ done, groups = done ++ [[]] ∧ List.Forall₂ (Answer socketFd sent) fetched done ∧
      responses = done.flatten ∧ commands.countP fetches = done.length + 1 ∧
      due = answerSize c ∧ replies = requests := by
  have htotal : commands.countP fetches = fetched.length + (tail.countP fetches + 1) := by
    rw [hsplit, List.countP_append, hcount, List.countP_cons_of_pos hc]
  cases h with
  | settled hdone _ hall =>
      have hlen := hdone.length_eq
      omega
  | requested _ hlast hdone _ hall =>
      have hlen := hdone.length_eq
      rw [hlast, List.length_append, List.length_singleton] at htotal
      omega
  | answered _ hlast hdone _ _ _ _ hall =>
      have hlen := hdone.length_eq
      rw [hlast, List.length_append, List.length_singleton] at htotal
      omega
  | @asked done cs c' hc' hgroups hlast hdone hput hall hdue hreplies =>
      have hlen := hdone.length_eq
      have hone : commands.countP fetches = done.length + 1 := by
        rw [hlast, List.countP_append, hall, List.countP_singleton, if_pos hc']
      have hnone : tail.countP fetches = 0 := by omega
      have hend : commands.getLast? = some c' := by rw [hlast, List.getLast?_concat]
      -- Behind `c` nothing is fetched, and the last command fetches.
      have htail : tail = [] := by
        rcases List.eq_nil_or_concat tail with hnil | ⟨tail', c'', hsnoc⟩
        · exact hnil
        · rw [hsplit, hsnoc, List.concat_eq_append, ← List.cons_append, ← List.append_assoc,
            List.getLast?_concat] at hend
          obtain rfl := Option.some.inj hend
          have hfetch := List.countP_eq_zero.mp hnone c'' (by simp [hsnoc])
          exact absurd hc' hfetch
      rw [hsplit, htail, List.getLast?_concat] at hend
      obtain rfl := Option.some.inj hend
      exact ⟨done, hgroups, hdone, hput, hone, hdue, hreplies⟩

/-- A command has been handled. `FETCH_STATE` puts its answer on the pipe, as far as it goes. -/
theorem finish {hs tail bs : List UInt8} {c : UInt8} {s : Client.State}
    (h : Exchange socketFd sent fetched groups commands due responses replies requests)
    (hsplit : commands = hs ++ c :: tail) (hcount : hs.countP fetches = fetched.length)
    (hpart : bs <+: Client.answerTo c s) :
    Exchange socketFd sent (fetched ++ if fetches c then [(c, s)] else []) groups commands due
      (responses ++ bs) replies (requests + if c = commandFetchConfig then 1 else 0) := by
  by_cases hc : fetches c = true
  · obtain ⟨done, hgroups, hdone, hput, hall, hdue, hreplies⟩ := h.next hsplit hc hcount
    rw [if_pos hc]
    by_cases hstate : c = commandFetchState
    · have hanswer : Answer socketFd sent (c, s) (stateBytes s) := by
        rw [Answer, if_pos hstate]
      have hwhole : Client.answerTo c s = stateBytes s := if_pos hstate
      have hother : c ≠ commandFetchConfig := by
        rw [hstate]
        decide
      rw [hwhole] at hpart
      rw [if_neg hother, Nat.add_zero, hput]
      refine .answered hgroups rfl hdone hanswer rfl List.nil_prefix hpart hall ?_ hreplies
      rw [hanswer.length, List.length_nil, Nat.zero_add]
      exact hdue
    · have hconfig : c = commandFetchConfig := (of_decide_eq_true hc).resolve_right hstate
      have hnil : Client.answerTo c s = [] := if_neg hstate
      rw [hnil] at hpart
      rw [List.prefix_nil.mp hpart, List.append_nil, if_pos hconfig, hconfig]
      rw [hconfig] at hdue
      exact .requested hgroups rfl hdone hput hall hdue (by rw [hreplies])
  · have hnil : Client.answerTo c s = [] :=
      if_neg fun hstate => hc (decide_eq_true (.inr hstate))
    have hother : c ≠ commandFetchConfig := fun hconfig => hc (decide_eq_true (.inl hconfig))
    rw [hnil] at hpart
    rw [List.prefix_nil.mp hpart, List.append_nil, if_neg hc, List.append_nil, if_neg hother,
      Nat.add_zero]
    exact h

/-- IP replies have come in. Only a service that waits for its address has one coming, and one
only. -/
theorem reply {answers : List (List UInt8)} {bs : List UInt8} {replies' : Nat}
    (h : Exchange socketFd sent fetched groups commands due responses replies requests)
    (hlen : replies' = replies + answers.length) (hmost : replies' ≤ requests)
    (hpart : bs <+: answers.flatten)
    (hconfig : ∀ a ∈ answers, ∃ f ∈ sent, f.type = msgIpRsb ∧ ConfigOf socketFd f a) :
    Exchange socketFd sent fetched groups commands due (responses ++ bs) replies' requests := by
  have hnone : replies = requests → bs = [] ∧ replies' = replies := by
    intro hreplies
    have hnil : answers = [] := List.length_eq_zero_iff.mp (by omega)
    rw [hnil, List.flatten_nil, List.prefix_nil] at hpart
    exact ⟨hpart, by rw [hlen, hnil, List.length_nil, Nat.add_zero]⟩
  cases h with
  | settled hdone hput hall hdue hreplies =>
      obtain ⟨rfl, rfl⟩ := hnone hreplies
      exact .settled hdone ((List.append_nil _).trans hput) hall hdue hreplies
  | asked hc hgroups hlast hdone hput hall hdue hreplies =>
      obtain ⟨rfl, rfl⟩ := hnone hreplies
      exact .asked hc hgroups hlast hdone ((List.append_nil _).trans hput) hall hdue hreplies
  | answered hgroups hlast hdone hanswer hput hread hpart' hall hdue hreplies =>
      obtain ⟨rfl, rfl⟩ := hnone hreplies
      exact .answered hgroups hlast hdone hanswer ((List.append_nil _).trans hput) hread hpart' hall
        hdue hreplies
  | @requested done prev s hgroups hlast hdone hput hall hdue hreplies =>
      rw [hput]
      match answers, hlen, hpart, hconfig with
      | [], hlen, hpart, _ =>
          rw [List.flatten_nil, List.prefix_nil] at hpart
          rw [hpart, List.append_nil]
          exact .requested hgroups hlast hdone rfl hall hdue (by rw [hlen]; exact hreplies)
      | [a], hlen, hpart, hconfig =>
          rw [List.flatten_singleton] at hpart
          have hanswer : Answer socketFd sent (commandFetchConfig, s) a := by
            rw [Answer, if_neg (show commandFetchConfig ≠ commandFetchState by decide)]
            exact hconfig a List.mem_cons_self
          refine .answered hgroups hlast hdone hanswer rfl List.nil_prefix hpart hall ?_ ?_
          · rw [hanswer.length, List.length_nil, Nat.zero_add]
            exact hdue
          · rw [hlen]
            exact hreplies
      | _ :: _ :: _, hlen, _, _ =>
          simp only [List.length_cons] at hlen
          omega

end Exchange

theorem forall₂_getElem? {α β : Type} {R : α → β → Prop} {l : List α} {m : List β}
    (h : List.Forall₂ R l m) {k : Nat} {b : β} (hb : m[k]? = some b) :
    ∃ a, l[k]? = some a ∧ R a b := by
  induction h generalizing k with
  | nil => simp at hb
  | @cons a b' l m hab hrest ih =>
      cases k with
      | zero =>
          obtain rfl := Option.some.inj hb
          exact ⟨a, rfl, hab⟩
      | succ k =>
          obtain ⟨a', ha', hr⟩ := ih hb
          exact ⟨a', ha', hr⟩

/-! ## The invariant -/

def callBytes : Option Pending → List UInt8
  | none => []
  | some p => p.command :: p.pieces.flatten

/-- What holds between the calls of the service and of the native loop. -/
structure Steady (start : Client.State) (fd : Nat) (l : Link) : Prop where
  script : Script fd l.java.todo
  wire : (commandCode fd).stream (l.handled.map Prod.fst) ++ callBytes l.call ++ l.pipe ++
    argsLeft l.java.todo = (commandCode fd).stream l.java.commands
  writing : argsLeft l.java.todo = [] ∨ (argsLeft l.java.todo).length ≤ 4 ∧
    l.java.commands.getLast? = some commandSetTun
  pieces : ∀ p, l.call = some p → p.pieces.flatten.length ≤ 4 ∧
    (p.command ≠ commandSetTun → p.pieces = [])
  tunFd : commandSetTun ∈ l.handled.map Prod.fst → l.client.tunFd = fd
  valid : ∀ f ∈ l.sent, f.Valid
  answers : l.replies ≤ l.requests
  socketFd : l.client.socketFd = start.socketFd
  decoded : l.client.ret = 0 → ∃ words,
    Client.Decoded start l.sent (Client.received l.client.log) words l.client
  exchange : Exchange start.socketFd l.sent l.fetched l.java.groups l.java.commands
    (owed l.java.todo) (Client.responses l.client.log) (Client.replies l.client.log) l.requests

namespace Steady

variable {start : Client.State} {fd : Nat} {l : Link}

/-- The commands not yet handled are those whose bytes are on the way. -/
theorem rest (h : Steady start fd l) : ∃ tail, l.java.commands = l.handled.map Prod.fst ++ tail ∧
    callBytes l.call ++ l.pipe ++ argsLeft l.java.todo = (commandCode fd).stream tail := by
  have hwire := h.wire
  rw [List.append_assoc, List.append_assoc, ← List.append_assoc (callBytes l.call)] at hwire
  have hpre : (commandCode fd).stream (l.handled.map Prod.fst) ++
      (callBytes l.call ++ l.pipe ++ argsLeft l.java.todo) <+:
        (commandCode fd).stream l.java.commands := by
    rw [hwire]
  obtain ⟨tail, hsplit, _⟩ := PrefixCode.split_of_prefix (commandCode fd) (fun _ _ => trivial)
    (fun _ _ => trivial) hpre
  refine ⟨tail, hsplit, ?_⟩
  rw [hsplit, PrefixCode.stream_append] at hwire
  exact List.append_cancel_left hwire

theorem countP_handled (l : Link) : (l.handled.map Prod.fst).countP fetches = l.fetched.length := by
  rw [List.countP_map, List.countP_eq_length_filter]
  rfl

/-! ### The service -/

theorem write {w : UInt8 × Java} (h : Steady start fd l) (hw : l.java.writes = some w) :
    Steady start fd { l with java := w.2, pipe := l.pipe ++ [w.1] } := by
  have hwire := h.wire
  have hscript := h.script
  have hexchange := h.exchange
  unfold Java.writes at hw
  cases htodo : l.java.todo with
  | nil => simp [htodo] at hw
  | cons c rest =>
      rw [htodo] at hw hwire hscript hexchange
      cases c with
      | read length => simp at hw
      | write b =>
          obtain rfl := Option.some.inj hw
          have hbefore := h.writing
          rw [htodo] at hbefore
          have hlast := hbefore.resolve_left (List.cons_ne_nil _ _)
          cases hscript with
          | write howed hrest =>
              refine ⟨hrest, ?_, .inr ⟨Nat.le_of_succ_le hlast.1, hlast.2⟩, h.pieces, h.tunFd,
                h.valid, h.answers, h.socketFd, h.decoded, ?_⟩
              · rw [← hwire]
                simp [argsLeft]
              · change Exchange _ _ _ _ _ (owed rest) _ _ _
                rw [howed]
                exact hexchange
      | writeByte c =>
          obtain rfl := Option.some.inj hw
          cases hscript with
          | writeByte hargs howed hrest =>
              obtain ⟨hdone, hput, hall, hreplies⟩ := hexchange.settle
              refine ⟨hrest, ?_, ?_, h.pieces, h.tunFd, h.valid, h.answers, h.socketFd,
                h.decoded, ?_⟩
              · change _ ++ _ ++ (l.pipe ++ [c]) ++ argsLeft rest =
                  (commandCode fd).stream (l.java.commands ++ [c])
                have hcode : (commandCode fd).stream [c] = c :: argsLeft rest := by
                  rw [hargs]
                  exact List.append_nil _
                rw [PrefixCode.stream_append, ← hwire, hcode]
                simp [argsLeft]
              · have htail := (List.cons.inj hargs).2
                by_cases hset : c = commandSetTun
                · right
                  rw [if_pos hset] at htail
                  refine ⟨?_, ?_⟩
                  · change (argsLeft rest).length ≤ 4
                    rw [htail, leBytes_length]
                  · change (l.java.commands ++ [c]).getLast? = _
                    rw [List.getLast?_concat, hset]
                · left
                  rw [if_neg hset] at htail
                  exact htail
              · change Exchange _ _ _ (if fetches c then l.java.groups ++ [[]] else l.java.groups)
                  (l.java.commands ++ [c]) (owed rest) _ _ _
                rw [howed]
                by_cases hc : fetches c = true
                · rw [if_pos hc, if_pos hc]
                  exact .asked hc rfl rfl hdone hput hall rfl hreplies
                · rw [if_neg hc, if_neg hc]
                  refine .settled hdone hput ?_ rfl hreplies
                  rw [List.countP_append, hall, List.countP_singleton, if_neg hc, Nat.add_zero]

theorem read {n : Nat} {java : Java} (h : Steady start fd l)
    (hj : l.java.reads (l.responsePipe.take n) = some java) :
    Steady start fd { l with java := java } := by
  have hwire := h.wire
  have hscript := h.script
  have hexchange := h.exchange
  unfold Java.reads at hj
  cases htodo : l.java.todo with
  | nil => simp [htodo] at hj
  | cons c rest =>
      rw [htodo] at hj hwire hscript hexchange
      cases c with
      | write b => simp at hj
      | writeByte c => simp at hj
      | read length =>
          simp only [Option.ite_none_right_eq_some, Option.some.injEq] at hj
          obtain ⟨⟨hsome, hfits⟩, rfl⟩ := hj
          cases hscript with
          | read hpos hargs hrest =>
              have hnext : Script fd (if (l.responsePipe.take n).length = length then rest
                  else .read (length - (l.responsePipe.take n).length) :: rest) ∧
                  argsLeft (if (l.responsePipe.take n).length = length then rest
                    else .read (length - (l.responsePipe.take n).length) :: rest) = [] ∧
                  owed (if (l.responsePipe.take n).length = length then rest
                    else .read (length - (l.responsePipe.take n).length) :: rest) =
                    length + owed rest - (l.responsePipe.take n).length := by
                split
                · exact ⟨hrest, hargs, by omega⟩
                · refine ⟨.read (by omega) hargs hrest, rfl, ?_⟩
                  change length - _ + owed rest = _
                  omega
              obtain ⟨hscript', hargs', howed'⟩ := hnext
              refine ⟨hscript', ?_, .inl hargs', h.pieces, h.tunFd, h.valid, h.answers,
                h.socketFd, h.decoded, ?_⟩
              · rw [← hwire]
                exact congrArg (_ ++ ·) hargs'
              · change Exchange _ _ _ (Java.addTo l.java.groups (l.responsePipe.take n)) _
                  (owed (if _ then _ else _)) _ _ _
                rw [howed']
                exact hexchange.read rfl hsome (Nat.le_trans hfits (Nat.le_add_right _ _))

theorem tick {java : Java} (h : Steady start fd l) (hj : l.java.ticks = some java) :
    Steady start fd { l with java := java } := by
  have hwire := h.wire
  have hexchange := h.exchange
  unfold Java.ticks at hj
  cases htodo : l.java.todo with
  | cons c rest => simp [htodo] at hj
  | nil =>
      rw [htodo] at hj hwire hexchange
      obtain rfl := Option.some.inj hj
      exact ⟨script_timerTask fd, hwire, .inl rfl, h.pieces, h.tunFd, h.valid, h.answers,
        h.socketFd, h.decoded, hexchange⟩

/-! ### The server -/

theorem send {f : Frame} (h : Steady start fd l) (hf : f.Valid)
    (hreply : f.type = msgIpRsb → l.replies < l.requests) :
    Steady start fd { l with sent := l.sent ++ [f] } := by
  refine ⟨h.script, h.wire, h.writing, h.pieces, h.tunFd, ?_, ?_, h.socketFd, ?_,
    h.exchange.mono (List.subset_append_left _ _)⟩
  · intro g hg
    rcases List.mem_append.mp hg with hg | hg
    · exact h.valid g hg
    · rwa [List.mem_singleton.mp hg]
  · change (l.sent ++ [f]).countP _ ≤ l.requests
    rw [List.countP_append, List.countP_singleton]
    have hbefore := h.answers
    unfold Link.replies at hbefore hreply
    by_cases htype : f.type = msgIpRsb
    · have hless := hreply htype
      simp only [htype, decide_true, if_true]
      omega
    · simpa [htype] using hbefore
  · intro hret
    obtain ⟨words, hdec⟩ := h.decoded hret
    exact ⟨words, hdec.mono (List.prefix_append _ _)⟩

/-! ### `handle_command` -/

theorem command {c : UInt8} {rest : List UInt8} (h : Steady start fd l) (hcall : l.call = none)
    (hpipe : l.pipe = c :: rest) :
    Steady start fd { l with call := some ⟨c, []⟩, pipe := rest } := by
  refine ⟨h.script, ?_, h.writing, ?_, h.tunFd, h.valid, h.answers, h.socketFd, h.decoded,
    h.exchange⟩
  · rw [← h.wire, hcall, hpipe]
    simp [callBytes]
  · intro p hp
    obtain rfl := Option.some.inj hp
    exact ⟨Nat.zero_le _, fun _ => rfl⟩

theorem argument {p : Pending} {n : Nat} (h : Steady start fd l) (hcall : l.call = some p)
    (hset : p.command = Client.ipcCommandSetTun) (hfits : (l.pipe.take n).length ≤
      4 - p.pieces.flatten.length) :
    Steady start fd { l with call := some { p with pieces := p.pieces ++ [l.pipe.take n] }
                             pipe := l.pipe.drop n } := by
  have hbefore := (h.pieces p hcall).1
  refine ⟨h.script, ?_, h.writing, ?_, h.tunFd, h.valid, h.answers, h.socketFd, h.decoded,
    h.exchange⟩
  · have hwire := h.wire
    rw [hcall] at hwire
    rw [← hwire]
    simp only [callBytes, List.flatten_append, List.flatten_singleton, List.append_assoc,
      List.cons_append]
    rw [← List.append_assoc (l.pipe.take n), List.take_append_drop]
  · intro q hq
    obtain rfl := Option.some.inj hq
    refine ⟨?_, fun hother => absurd hset hother⟩
    rw [List.flatten_append, List.flatten_singleton, List.length_append]
    omega

/-- The command under way is the next one, and its argument has been read. -/
theorem under_way {p : Pending} (h : Steady start fd l) (hcall : l.call = some p)
    (hread : p.command = commandSetTun → p.pieces.flatten.length = 4) :
    p.command :: p.pieces.flatten = commandBytes fd p.command ∧
      ∃ tail, l.java.commands = l.handled.map Prod.fst ++ p.command :: tail ∧
        l.pipe ++ argsLeft l.java.todo = (commandCode fd).stream tail := by
  obtain ⟨tail, hsplit, hbytes⟩ := h.rest
  rw [hcall] at hbytes
  cases tail with
  | nil => cases hbytes
  | cons c tail =>
      rw [PrefixCode.stream_cons] at hbytes
      change (p.command :: p.pieces.flatten) ++ l.pipe ++ argsLeft l.java.todo =
        commandBytes fd c ++ _ at hbytes
      obtain rfl : p.command = c := (List.cons.inj hbytes).1
      have hsame : p.command :: p.pieces.flatten = commandBytes fd p.command := by
        by_cases hset : p.command = commandSetTun
        · rw [List.append_assoc] at hbytes
          refine (List.append_inj hbytes ?_).1
          rw [commandBytes, if_pos hset, List.length_cons, List.length_cons, hread hset,
            leBytes_length]
        · rw [(h.pieces p hcall).2 hset, commandBytes, if_neg hset]
          rfl
      rw [← hsame, List.append_assoc] at hbytes
      exact ⟨hsame, tail, hsplit, List.append_cancel_left hbytes⟩

/-- What a command but `SET_TUN` and `SET_TUN` itself do to the response pipe and to `tunFd`. -/
theorem handled_spec {p : Pending} {write : Nat → WriteResult} {client : Client.State}
    (hfd : fd < 2 ^ 31) (h : Steady start fd l) (hcall : l.call = some p)
    (hstep : Client.step l.client (.command (p.env write) (p.pieces.length + 1)) = some client) :
    (p.command = commandSetTun → p.pieces.flatten.length = 4) ∧
      client.socketFd = l.client.socketFd ∧
      client.tunFd = (if p.command = commandSetTun then (fd : Int) else l.client.tunFd) ∧
      ∃ bs, Client.responses client.log = Client.responses l.client.log ++ bs ∧
        bs <+: Client.answerTo p.command l.client := by
  cases Client.step_call hstep with
  | command _ _ hhandled =>
      by_cases hset : p.command = commandSetTun
      · have hbyte : (p.env write).byte = .bytes (Client.ipcCommandSetTun :: []) := by
          rw [Pending.env, hset]
        obtain ⟨hfour, htun, hsock, hlog⟩ := Client.handleCommand_setTun hbyte (fun _ => rfl)
          (h.pieces p hcall).1 hhandled
        have hargs := (h.under_way hcall fun _ => hfour).1
        rw [commandBytes, if_pos hset] at hargs
        have hnat : leNat p.pieces.flatten = fd := by
          rw [(List.cons.inj hargs).2]
          exact leNat_leBytes_of_lt (by omega)
        refine ⟨fun _ => hfour, hsock, ?_, [], ?_, List.nil_prefix⟩
        · rw [if_pos hset, htun, hnat, int32_of_range (by omega) (by omega)]
        · rw [hlog, List.append_nil]
      · have hbyte : (p.env write).byte = .bytes [p.command] := rfl
        obtain ⟨hsock, htun, hanswer⟩ := Client.handleCommand_responses hbyte hset hhandled
        refine ⟨fun hset' => absurd hset' hset, hsock, ?_, hanswer⟩
        rw [if_neg hset, htun]

theorem finish {p : Pending} {write : Nat → WriteResult} {client : Client.State}
    (hfd : fd < 2 ^ 31) (h : Steady start fd l) (hcall : l.call = some p)
    (hstep : Client.step l.client (.command (p.env write) (p.pieces.length + 1)) = some client) :
    Steady start fd { l with client := client, call := none
                             handled := l.handled ++ [(p.command, l.client)] } := by
  obtain ⟨hread, hsock, htun, bs, hlog, hpart⟩ := h.handled_spec hfd hcall hstep
  obtain ⟨hbytes, tail, hsplit, htail⟩ := h.under_way hcall hread
  have haside : Client.Aside l.client client := by
    cases Client.step_call hstep with
    | command _ _ hhandled => exact Client.handleCommand_aside hhandled
  have hmap : (l.handled ++ [(p.command, l.client)]).map Prod.fst =
      l.handled.map Prod.fst ++ [p.command] := List.map_append
  have hrequests : (l.handled ++ [(p.command, l.client)]).countP
      (fun h => h.1 = commandFetchConfig) = l.requests +
        if p.command = commandFetchConfig then 1 else 0 := by
    rw [List.countP_append, List.countP_singleton]
    simp [Link.requests]
  refine ⟨h.script, ?_, h.writing, ?_, ?_, h.valid, ?_, hsock.trans h.socketFd, ?_, ?_⟩
  · simp only [hmap, callBytes, List.append_nil]
    rw [PrefixCode.stream_append, List.append_assoc, htail, hsplit, PrefixCode.stream_append,
      PrefixCode.stream_cons, PrefixCode.stream_cons, PrefixCode.stream_nil, List.append_nil,
      List.append_assoc]
  · rintro q ⟨⟩
  · intro hmem
    rw [hmap] at hmem
    change client.tunFd = fd
    rw [htun]
    by_cases hset : p.command = commandSetTun
    · rw [if_pos hset]
    · rw [if_neg hset]
      refine h.tunFd ((List.mem_append.mp hmem).resolve_right fun hlast => ?_)
      exact hset (List.mem_singleton.mp hlast).symm
  · change l.replies ≤ _
    refine Nat.le_trans h.answers ?_
    change _ ≤ (l.handled ++ [(p.command, l.client)]).countP _
    rw [hrequests]
    exact Nat.le_add_right _ _
  · intro hret
    obtain ⟨words, hdec⟩ := h.decoded (Client.step_ret hstep)
    refine ⟨words, ?_⟩
    change Client.Decoded start l.sent (Client.received client.log) words client
    rw [haside.received_eq.1]
    exact hdec.of_aside haside
  · have hfetched : ({ l with client := client, call := none
                              handled := l.handled ++ [(p.command, l.client)] } : Link).fetched =
        l.fetched ++ if fetches p.command then [(p.command, l.client)] else [] := by
      simp only [Link.fetched, List.filter_append]
      congr 1
      by_cases hc : fetches p.command = true
      · simp [hc]
      · simp [hc]
    rw [hfetched]
    change Exchange _ _ _ _ _ _ (Client.responses client.log) (Client.replies client.log)
      ((l.handled ++ [(p.command, l.client)]).countP _)
    rw [hrequests, haside.replies_eq, hlog]
    exact h.exchange.finish hsplit (countP_handled l) hpart

/-! ### The other handlers -/

theorem quiet {client : Client.State} (h : Steady start fd l) (hret : l.client.ret = 0)
    (haside : Client.Aside l.client client) (hquiet : Client.Quiet l.client client) :
    Steady start fd { l with client := client } := by
  refine ⟨h.script, h.wire, h.writing, h.pieces, ?_, h.valid, h.answers,
    hquiet.socketFd.trans h.socketFd, ?_, ?_⟩
  · intro hmem
    exact hquiet.tunFd.trans (h.tunFd hmem)
  · intro _
    obtain ⟨words, hdec⟩ := h.decoded hret
    refine ⟨words, ?_⟩
    change Client.Decoded start l.sent (Client.received client.log) words client
    rw [haside.received_eq.1]
    exact hdec.of_aside haside
  · have hexchange := h.exchange
    rw [← hquiet.responses, ← hquiet.replies] at hexchange
    exact hexchange

/-- A failed `recv`. -/
theorem lost (h : Steady start fd l) :
    Steady start fd { l with client := l.client.fail .recv } := by
  refine ⟨h.script, h.wire, h.writing, h.pieces, h.tunFd, h.valid, h.answers, h.socketFd,
    ?_, ?_⟩
  · intro hret
    exact absurd hret (show (-1 : Int) ≠ 0 by decide)
  · have hexchange := h.exchange
    have hlog : Client.responses (l.client.fail .recv).log = Client.responses l.client.log :=
      List.append_nil _
    have hreplies : Client.replies (l.client.fail .recv).log = Client.replies l.client.log :=
      Client.Answered.replies_congr (List.append_nil _)
    rw [← hlog, ← hreplies] at hexchange
    exact hexchange

theorem socket {client : Client.State} {bs : List UInt8} {env : Nat → Client.SocketEnv} {fuel : Nat}
    (hstart : Client.received start.log = [] ∧ Client.dispatched start.log = [])
    (h : Steady start fd l) (hret : l.client.ret = 0) (hfits : bs.length ≤ l.client.room)
    (hgot : Client.received l.client.log ++ bs <+: frameCode.stream l.sent)
    (hcall : Client.handleSocket (.bytes bs) env fuel l.client = .stopped client) :
    Steady start fd { l with client := client } := by
  obtain ⟨words, hdec⟩ := h.decoded hret
  obtain ⟨⟨answers, put, hanswered⟩, hcount, hnext⟩ :=
    Client.handleSocket_answers h.valid hdec hstart.2 hfits hgot hcall
  have hmost : Client.replies client.log ≤ l.requests := Nat.le_trans hcount h.answers
  refine ⟨h.script, h.wire, h.writing, h.pieces, ?_, h.valid, h.answers,
    hanswered.socketFd.trans h.socketFd, ?_, ?_⟩
  · intro hmem
    exact hanswered.tunFd.trans (h.tunFd hmem)
  · intro hret'
    obtain ⟨words', hdec'⟩ := hnext hret'
    have hread := hdec'.read
    rw [hstart.1, List.nil_append] at hread
    refine ⟨words', ?_⟩
    change Client.Decoded start l.sent (Client.received client.log) words' client
    rw [hread]
    exact hdec'
  · have hconfig := hanswered.config
    rw [h.socketFd] at hconfig
    change Exchange _ _ _ _ _ _ (Client.responses client.log) (Client.replies client.log) _
    rw [hanswered.responses]
    exact h.exchange.reply hanswered.replies hmost hanswered.part hconfig

theorem native {client : Client.State} {e : Client.Event}
    (hstart : Client.received start.log = [] ∧ Client.dispatched start.log = [])
    (h : Steady start fd l) (hdelivers : l.Delivers e)
    (hstep : Client.step l.client e = some client) :
    Steady start fd { l with client := client } := by
  have hret := Client.step_ret hstep
  cases Client.step_call hstep with
  | heartbeat now write =>
      exact h.quiet hret (Client.handleHeartbeat_aside now write _)
        (Client.handleHeartbeat_quiet now write _)
  | command => exact hdelivers.elim
  | tunnel r write₁ write₂ =>
      exact h.quiet hret (Client.handleTunnel_aside r write₁ write₂ _)
        (Client.handleTunnel_quiet r write₁ write₂ _)
  | socket r env fuel hfits hcall =>
      cases r with
      | error =>
          obtain rfl := Outcome.stopped.inj hcall
          exact h.lost
      | bytes bs => exact h.socket hstart hret hfits hdelivers hcall

theorem step {l' : Link} {e : Event} (hfd : fd < 2 ^ 31)
    (hstart : Client.received start.log = [] ∧ Client.dispatched start.log = [])
    (h : Steady start fd l) (hstep : Service.step l e = some l') : Steady start fd l' := by
  cases e with
  | write =>
      obtain ⟨w, hw, rfl⟩ := Option.map_eq_some_iff.mp hstep
      exact h.write hw
  | read n =>
      obtain ⟨java, hj, rfl⟩ := Option.map_eq_some_iff.mp hstep
      exact h.read hj
  | tick =>
      obtain ⟨java, hj, rfl⟩ := Option.map_eq_some_iff.mp hstep
      exact h.tick hj
  | send f =>
      simp only [Service.step, Option.ite_none_right_eq_some, Option.some.injEq] at hstep
      obtain ⟨⟨hf, hreply⟩, rfl⟩ := hstep
      exact h.send hf hreply
  | command =>
      simp only [Service.step] at hstep
      split at hstep
      · rename_i c rest hcall hpipe
        simp only [Option.ite_none_right_eq_some, Option.some.injEq] at hstep
        obtain ⟨_, rfl⟩ := hstep
        exact h.command hcall hpipe
      · cases hstep
  | argument n =>
      simp only [Service.step] at hstep
      split at hstep
      · rename_i p hcall
        simp only [Option.ite_none_right_eq_some, Option.some.injEq] at hstep
        obtain ⟨⟨hset, _, _, hfits⟩, rfl⟩ := hstep
        exact h.argument hcall hset hfits
      · cases hstep
  | finish write =>
      simp only [Service.step] at hstep
      split at hstep
      · rename_i p hcall
        obtain ⟨client, hclient, rfl⟩ := Option.map_eq_some_iff.mp hstep
        exact h.finish hfd hcall hclient
      · cases hstep
  | native e =>
      simp only [Service.step, Option.ite_none_right_eq_some] at hstep
      obtain ⟨⟨_, hdelivers⟩, hstep⟩ := hstep
      obtain ⟨client, hclient, rfl⟩ := Option.map_eq_some_iff.mp hstep
      exact h.native hstart hdelivers hclient

theorem init (fds : Client.Descriptors) (time₁ time₂ : Int) (stale : CellMemory UInt8) (fd : Nat) :
    Steady (Client.protocolInit fds time₁ time₂ stale) fd
      (Link.start fds time₁ time₂ stale fd) := by
  refine ⟨script_startVPN fd, rfl, .inl rfl, by rintro p ⟨⟩, by rintro ⟨⟩, by rintro f ⟨⟩,
    Nat.le_refl 0, rfl, fun _ => ⟨[], ?_⟩, .settled .nil rfl rfl rfl rfl⟩
  exact Client.Decoded.refl [] (Client.State.Bounded.protocolInit fds time₁ time₂ stale) rfl

/-! ### What it says -/

theorem all_decoded (h : Steady start fd l) (hpipe : l.pipe = []) (hcall : l.call.isNone) :
    l.handled.map Prod.fst = l.java.commands := by
  obtain ⟨tail, hsplit, hbytes⟩ := h.rest
  rw [Option.isNone_iff_eq_none.mp hcall, hpipe] at hbytes
  change argsLeft l.java.todo = _ at hbytes
  cases tail with
  | nil => rw [hsplit, List.append_nil]
  | cons c tail =>
      -- Only the argument of the last command can be missing, and then the command itself is there.
      rcases h.writing with hnil | ⟨hshort, hlast⟩
      · rw [hnil] at hbytes
        cases hbytes
      · have hmem : commandSetTun ∈ c :: tail := by
          rw [hsplit, List.getLast?_append_of_ne_nil _ (List.cons_ne_nil c tail)] at hlast
          exact List.mem_of_getLast? hlast
        obtain ⟨pre, post, hmid⟩ := List.append_of_mem hmem
        rw [hbytes, hmid, PrefixCode.stream_append, PrefixCode.stream_cons, List.length_append,
          List.length_append] at hshort
        have hfive : ((commandCode fd).encode commandSetTun).length = 5 := by
          change (commandBytes fd commandSetTun).length = 5
          rw [commandBytes, if_pos rfl, List.length_cons, leBytes_length]
        omega

/-- Each group is part of a response, and all of it unless it is the last one and being read. -/
theorem group (h : Steady start fd l) {k : Nat} {g : List UInt8}
    (hg : l.java.groups[k]? = some g)
    (hsome : g ≠ [] ∨ k + 1 < l.java.groups.length ∨ ¬ l.java.Reading) :
    ∃ h answer, l.fetched[k]? = some h ∧ Answer start.socketFd l.sent h answer ∧ g <+: answer ∧
      (k + 1 < l.java.groups.length ∨ ¬ l.java.Reading → g = answer) := by
  have hexchange := h.exchange
  have hempty : ∀ {done : List (List UInt8)}, l.java.groups = done ++ [[]] →
      0 < owed l.java.todo → k < done.length := by
    intro done hgroups hpos
    rw [hgroups] at hg hsome
    obtain ⟨hk, hget⟩ := List.getElem?_eq_some_iff.mp hg
    rw [List.length_append, List.length_singleton] at hk hsome
    by_contra hlast
    have hend : k = done.length := by omega
    subst hend
    rw [List.getElem_concat_length rfl] at hget
    rcases hsome with hne | hlt | hdone
    · exact hne hget.symm
    · omega
    · exact hdone (Java.reading_of_owed hpos)
  have hearlier : ∀ {done : List (List UInt8)} {last : List UInt8}
      {prev : List (UInt8 × Client.State)} {rest : List (UInt8 × Client.State)},
      l.java.groups = done ++ [last] → l.fetched = prev ++ rest →
      List.Forall₂ (Answer start.socketFd l.sent) prev done → k < done.length →
      ∃ h, l.fetched[k]? = some h ∧ Answer start.socketFd l.sent h g := by
    intro done last prev rest hgroups hfetched hdone hk
    rw [hgroups, List.getElem?_append_left hk] at hg
    obtain ⟨h, hh, hanswer⟩ := forall₂_getElem? hdone hg
    have hlt : k < prev.length := (List.getElem?_eq_some_iff.mp hh).1
    exact ⟨h, by rw [hfetched, List.getElem?_append_left hlt, hh], hanswer⟩
  cases hexchange with
  | settled hdone =>
      obtain ⟨h, hh, hanswer⟩ := forall₂_getElem? hdone hg
      exact ⟨h, g, hh, hanswer, List.prefix_refl g, fun _ => rfl⟩
  | asked hc hgroups _ hdone _ _ hdue =>
      have hk := hempty hgroups (by rw [hdue]; exact answerSize_pos _)
      obtain ⟨h, hh, hanswer⟩ := hearlier hgroups (List.append_nil _).symm hdone hk
      exact ⟨h, g, hh, hanswer, List.prefix_refl g, fun _ => rfl⟩
  | requested hgroups hlast hdone _ _ hdue =>
      have hk := hempty hgroups (by rw [hdue]; exact answerSize_pos _)
      obtain ⟨h, hh, hanswer⟩ := hearlier hgroups hlast hdone hk
      exact ⟨h, g, hh, hanswer, List.prefix_refl g, fun _ => rfl⟩
  | @answered done prev h answer got put hgroups hlast hdone hanswer _ hread hpart _ hdue =>
      by_cases hk : k < done.length
      · obtain ⟨h, hh, hanswer⟩ := hearlier hgroups hlast hdone hk
        exact ⟨h, g, hh, hanswer, List.prefix_refl g, fun _ => rfl⟩
      · have hbound := (List.getElem?_eq_some_iff.mp hg).1
        rw [hgroups, List.length_append, List.length_singleton] at hbound
        have hend : k = done.length := by omega
        subst hend
        rw [hgroups, List.getElem?_concat_length] at hg
        obtain rfl := Option.some.inj hg
        refine ⟨h, answer, ?_, hanswer, hread.trans hpart, ?_⟩
        · rw [hlast, ← hdone.length_eq, List.getElem?_concat_length]
        · rintro (hlt | hquiet)
          · rw [hgroups, List.length_append, List.length_singleton] at hlt
            omega
          · have hnodue : owed l.java.todo = 0 :=
              Nat.eq_zero_of_not_pos fun hpos => hquiet (Java.reading_of_owed hpos)
            exact (hread.trans hpart).eq_of_length (by omega)

theorem aligned (h : Steady start fd l) : Aligned start.socketFd fd l where
  decoded := by
    obtain ⟨tail, hsplit, _⟩ := h.rest
    rw [hsplit]
    exact List.prefix_append _ _
  allDecoded := h.all_decoded
  tunFd := h.tunFd
  complete k g hg hwhole := by
    obtain ⟨h', answer, hh, hanswer, _, hall⟩ := h.group hg (.inr hwhole)
    rw [hall hwhole]
    exact ⟨h', hh, hanswer⟩
  begun k g hg hsome := by
    obtain ⟨h', answer, hh, hanswer, hpart, _⟩ := h.group hg (.inl hsome)
    exact ⟨h', answer, hh, hanswer, hpart⟩

end Steady

theorem steady_of_run {fds : Client.Descriptors} {time₁ time₂ : Int} {stale : CellMemory UInt8}
    {fd : Nat} (hfd : fd < 2 ^ 31) {es : List Event} {l : Link}
    (hrun : run step (Link.start fds time₁ time₂ stale fd) es = some l) :
    Steady (Client.protocolInit fds time₁ time₂ stale) fd l :=
  run_invariant (Steady (Client.protocolInit fds time₁ time₂ stale) fd)
    (fun _ _ _ h hstep => h.step hfd ⟨rfl, rfl⟩ hstep) (Steady.init fds time₁ time₂ stale fd) hrun

/-- In every state of every run the commands are decoded as they were written, `tunFd` is the
descriptor given to `writeInt`, and every group of bytes the service has read is the response to
its `FETCH` command. -/
theorem pipes_aligned (fds : Client.Descriptors) (time₁ time₂ : Int) (stale : CellMemory UInt8)
    (fd : Nat) (hfd : fd < 2 ^ 31) (es : List Event) (l : Link)
    (hrun : run step (Link.start fds time₁ time₂ stale fd) es = some l) :
    Aligned fds.socketFd fd l := (steady_of_run hfd hrun).aligned

/-- The service gets its address, passes on descriptor 6, whose bytes come in two pieces, and polls
once. -/
def onePoll : List Event :=
  let reply : Frame := ⟨msgIpRsb, "13.8.0.2".toList.map fun c => UInt8.ofNat c.toNat⟩
  let finish : Event := .finish fun _ => Client.writesAll
  [.write, .command, finish, .send reply,
    .native (.socket (.bytes reply.bytes) (Client.SocketEnv.prompt 0) 9), .read 20] ++
    List.replicate 4 (.read 1) ++ List.replicate 5 .write ++
    [.command, .argument 1, .argument 3, finish, .tick, .write, .command, finish] ++
    List.replicate 32 (.read 1)

theorem pipes_aligned_onePoll :
    ∃ l, run step (Link.start .usual 0 0 (fun _ => 0) 6) onePoll = some l ∧
      l.java.groups.map List.length = [24, 32] ∧ Aligned 3 6 l := by
  have hany : ((run step (Link.start .usual 0 0 (fun _ => 0) 6) onePoll).any fun l =>
      decide (l.java.groups.map List.length = [24, 32])) = true := by decide +kernel
  obtain ⟨l, hrun, hl⟩ := (Option.any_eq_true _ _).mp hany
  exact ⟨l, hrun, of_decide_eq_true hl,
    pipes_aligned .usual 0 0 (fun _ => 0) 6 (by decide) onePoll l hrun⟩

end Over6.Service
