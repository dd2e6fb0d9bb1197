import Mathlib.Data.List.Basic
import Mathlib.Data.List.Infix

/-! # Streams of self-delimiting code words

A code in which no word begins another can be cut out of a stream without
separators. The stream of a list of words determines the list, and a prefix of a
stream determines how many whole words it holds.
-/

/-- A code on the valid `α` whose words are never empty and never begin one another. -/
structure PrefixCode (α β : Type) where
  encode : α → List β
  Valid : α → Prop
  nonempty : ∀ a, encode a ≠ []
  separated : ∀ a b x y, Valid a → Valid b → encode a ++ x = encode b ++ y → a = b

namespace PrefixCode

variable {α β : Type} (code : PrefixCode α β)

def stream (l : List α) : List β := l.flatMap code.encode

@[simp] theorem stream_nil : code.stream [] = [] := rfl

@[simp] theorem stream_cons (a : α) (l : List α) :
    code.stream (a :: l) = code.encode a ++ code.stream l := by
  simp [stream]

@[simp] theorem stream_append (l m : List α) :
    code.stream (l ++ m) = code.stream l ++ code.stream m := by
  simp [stream]

theorem stream_prefix {l m : List α} (h : l <+: m) : code.stream l <+: code.stream m := by
  obtain ⟨tail, rfl⟩ := h
  rw [stream_append]
  exact List.prefix_append _ _

/-- Whole words followed by anything can begin a stream only if they begin its list. -/
theorem split_of_prefix {l m : List α} {rest : List β} (hl : ∀ a ∈ l, code.Valid a)
    (hm : ∀ a ∈ m, code.Valid a) (h : code.stream l ++ rest <+: code.stream m) :
    ∃ tail, m = l ++ tail ∧ rest <+: code.stream tail := by
  induction l generalizing m with
  | nil => exact ⟨m, rfl, by simpa using h⟩
  | cons a l ih =>
      cases m with
      | nil =>
          simp only [stream_cons, stream_nil, List.append_assoc, List.prefix_nil,
            List.append_eq_nil_iff] at h
          exact absurd h.1 (code.nonempty a)
      | cons b m =>
          obtain ⟨y, hy⟩ := h
          simp only [stream_cons, List.append_assoc] at hy
          have hab : a = b :=
            code.separated a b _ _ (hl a List.mem_cons_self) (hm b List.mem_cons_self) hy
          subst hab
          have hrest : code.stream l ++ rest <+: code.stream m :=
            ⟨y, by simpa using List.append_cancel_left hy⟩
          obtain ⟨tail, hm', hp⟩ := ih (fun x hx => hl x (List.mem_cons_of_mem a hx))
            (fun x hx => hm x (List.mem_cons_of_mem a hx)) hrest
          exact ⟨tail, by simp [hm'], hp⟩

/-- The stream determines the list. -/
theorem stream_injective {l m : List α} (hl : ∀ a ∈ l, code.Valid a) (hm : ∀ a ∈ m, code.Valid a)
    (h : code.stream l = code.stream m) : l = m := by
  have hpre : code.stream l ++ [] <+: code.stream m := by
    rw [List.append_nil, h]
  obtain ⟨tail, rfl, _⟩ := code.split_of_prefix hl hm hpre
  rw [stream_append] at h
  have hnil : code.stream tail = [] := List.append_cancel_left (h.symm.trans (List.append_nil _).symm)
  cases tail with
  | nil => exact (List.append_nil l).symm
  | cons a tail =>
      rw [stream_cons, List.append_eq_nil_iff] at hnil
      exact absurd hnil.1 (code.nonempty a)

def Short (rest : List β) : Prop :=
  ∃ a, code.Valid a ∧ rest <+: code.encode a ∧ rest ≠ code.encode a

/-- A word with anything behind it is not short of a word. -/
theorem not_short {a : α} (ha : code.Valid a) (more : List β) : ¬ code.Short (code.encode a ++ more) := by
  rintro ⟨b, hb, ⟨rest, hrest⟩, hne⟩
  rw [List.append_assoc] at hrest
  have hab : a = b := by
    refine code.separated a b (more ++ rest) [] ha hb ?_
    rw [List.append_nil]
    exact hrest
  subst hab
  have hnil : more ++ rest = [] := List.append_right_eq_self.mp hrest
  rw [(List.append_eq_nil_iff.mp hnil).1, List.append_nil] at hne
  exact hne rfl

/-- A stream that is cut in a word is cut into words in one way. -/
theorem split_unique {l m : List α} {x y : List β} (hl : ∀ a ∈ l, code.Valid a)
    (hm : ∀ a ∈ m, code.Valid a) (hx : code.Short x) (hy : code.Short y)
    (h : code.stream l ++ x = code.stream m ++ y) : l = m := by
  induction l generalizing m with
  | nil =>
      cases m with
      | nil => rfl
      | cons b m =>
          rw [stream_cons, List.append_assoc, stream_nil, List.nil_append] at h
          exact absurd (h ▸ hx) (code.not_short (hm b List.mem_cons_self) _)
  | cons a l ih =>
      cases m with
      | nil =>
          rw [stream_cons, List.append_assoc, stream_nil, List.nil_append] at h
          exact absurd (h ▸ hy) (code.not_short (hl a List.mem_cons_self) _)
      | cons b m =>
          rw [stream_cons, stream_cons, List.append_assoc, List.append_assoc] at h
          have hab : a = b :=
            code.separated a b _ _ (hl a List.mem_cons_self) (hm b List.mem_cons_self) h
          subst hab
          rw [ih (fun c hc => hl c (List.mem_cons_of_mem a hc))
            (fun c hc => hm c (List.mem_cons_of_mem a hc)) (List.append_cancel_left h)]

/-- The bytes that wait for the rest of the first word still to come. -/
def Pending (rest : List β) : List α → Prop
  | [] => rest = []
  | a :: _ => rest <+: code.encode a ∧ rest ≠ code.encode a

theorem Pending.length_lt {rest : List β} {a : α} {tail : List α}
    (h : code.Pending rest (a :: tail)) : rest.length < (code.encode a).length := by
  obtain ⟨hp, hne⟩ := h
  exact Nat.lt_of_le_of_ne hp.length_le fun he => hne (hp.eq_of_length he)

/-- A short beginning of a stream is a beginning of its first word. -/
theorem pending_of_short {rest : List β} {a : α} {tail : List α}
    (hp : rest <+: code.stream (a :: tail)) (hlt : rest.length < (code.encode a).length) :
    code.Pending rest (a :: tail) := by
  rw [stream_cons] at hp
  have hpre : rest <+: code.encode a :=
    List.prefix_of_prefix_length_le hp (List.prefix_append _ _) (Nat.le_of_lt hlt)
  exact ⟨hpre, fun he => by simp [he] at hlt⟩

/-- A long enough beginning of a stream holds its first word. -/
theorem first_of_long {rest : List β} {a : α} {tail : List α}
    (hp : rest <+: code.stream (a :: tail)) (hle : (code.encode a).length ≤ rest.length) :
    ∃ more, rest = code.encode a ++ more ∧ more <+: code.stream tail := by
  rw [stream_cons] at hp
  obtain ⟨more, hmore⟩ :=
    List.prefix_of_prefix_length_le (List.prefix_append (code.encode a) (code.stream tail)) hp hle
  refine ⟨more, hmore.symm, ?_⟩
  rw [← hmore] at hp
  exact (List.prefix_append_right_inj _).mp hp

theorem Pending.nil_of_stream {tail : List α} (h : code.Pending (code.stream tail) tail) :
    tail = [] := by
  cases tail with
  | nil => rfl
  | cons a tail =>
      have hlt := h.length_lt
      rw [stream_cons, List.length_append] at hlt
      omega

/-! ## Taking words off a stream -/

/-- A decoder of the stream of `sent` has taken in `got`, put out `words` and holds `rest`. -/
def Partway (sent : List α) (got : List β) (words : List α) (rest : List β) : Prop :=
  words <+: sent ∧ got = code.stream words ++ rest

namespace Partway

variable {code} {sent words : List α} {got rest : List β}

theorem start (sent : List α) : code.Partway sent [] [] [] := ⟨List.nil_prefix, rfl⟩

theorem more (h : code.Partway sent got words rest) (bs : List β) :
    code.Partway sent (got ++ bs) words (rest ++ bs) :=
  ⟨h.1, by rw [h.2, List.append_assoc]⟩

/-- More words may be sent. -/
theorem mono {sent' : List α} (h : code.Partway sent got words rest) (hle : sent <+: sent') :
    code.Partway sent' got words rest := ⟨h.1.trans hle, h.2⟩

/-- What is held begins the stream of the words still to come. -/
theorem front (h : code.Partway sent got words rest) (hvalid : ∀ a ∈ sent, code.Valid a)
    (hgot : got <+: code.stream sent) :
    ∃ tail, sent = words ++ tail ∧ rest <+: code.stream tail :=
  code.split_of_prefix (fun a ha => hvalid a (h.1.subset ha)) hvalid (h.2 ▸ hgot)

/-- Putting out the next word. -/
theorem word {a : α} {tail : List α} {more : List β} (h : code.Partway sent got words rest)
    (hsent : sent = words ++ a :: tail) (hrest : rest = code.encode a ++ more) :
    code.Partway sent got (words ++ [a]) more := by
  refine ⟨⟨tail, by simp [hsent]⟩, ?_⟩
  rw [h.2, hrest, stream_append, stream_cons, stream_nil, List.append_nil, List.append_assoc]

end Partway

/-- The decoder holds no complete word. -/
def Settled (sent : List α) (got : List β) (words : List α) : Prop :=
  ∃ tail rest, sent = words ++ tail ∧ got = code.stream words ++ rest ∧ code.Pending rest tail

theorem settled_start (sent : List α) : code.Settled sent [] [] := by
  refine ⟨sent, [], rfl, rfl, ?_⟩
  cases sent with
  | nil => rfl
  | cons a sent => exact ⟨List.nil_prefix, fun h => code.nonempty a h.symm⟩

/-- A decoder that holds less than the next word is settled. -/
theorem Partway.settled {sent words : List α} {got rest : List β}
    (h : code.Partway sent got words rest) (hvalid : ∀ a ∈ sent, code.Valid a)
    (hgot : got <+: code.stream sent)
    (hshort : ∀ a tail, sent = words ++ a :: tail → rest.length < (code.encode a).length) :
    code.Settled sent got words := by
  obtain ⟨tail, hsent, hrest⟩ := h.front hvalid hgot
  refine ⟨tail, rest, hsent, h.2, ?_⟩
  cases tail with
  | nil => exact List.prefix_nil.mp hrest
  | cons a tail => exact code.pending_of_short hrest (hshort a tail hsent)

/-- Once the whole stream is in, a settled decoder has put out every word. -/
theorem Settled.complete {sent words : List α}
    (h : code.Settled sent (code.stream sent) words) : words = sent := by
  obtain ⟨tail, rest, hsent, hgot, hpending⟩ := h
  rw [hsent, stream_append] at hgot
  rw [← List.append_cancel_left hgot] at hpending
  rw [hsent, hpending.nil_of_stream, List.append_nil]

/-! ## Words in progress -/

/-- The bytes are the stream of the words, the last of which may be in progress if it is `Open`. -/
def Cut (Open : α → Prop) (words : List α) (bytes : List β) : Prop :=
  bytes = code.stream words ∨ ∃ whole last part, words = whole ++ [last] ∧ Open last ∧
    part <+: code.encode last ∧ bytes = code.stream whole ++ part

theorem Cut.isPrefix {code : PrefixCode α β} {Open : α → Prop} {words : List α} {bytes : List β}
    (h : code.Cut Open words bytes) : bytes <+: code.stream words := by
  rcases h with rfl | ⟨whole, last, part, rfl, _, hpart, rfl⟩
  · exact List.prefix_rfl
  · rw [stream_append, stream_cons, stream_nil, List.append_nil]
    exact (List.prefix_append_right_inj _).mpr hpart

/-- `rest` is still to be written of the words, and it is the end of the last one. -/
def Owes (Open : α → Prop) (words : List α) (bytes rest : List β) : Prop :=
  bytes ++ rest = code.stream words ∧
    (rest ≠ [] → ∃ whole last, words = whole ++ [last] ∧ Open last ∧ code.stream whole <+: bytes)

namespace Owes

variable {code} {Open : α → Prop} {words : List α} {bytes rest : List β}

theorem start : code.Owes Open [] [] [] := ⟨rfl, fun h => absurd rfl h⟩

theorem cut (h : code.Owes Open words bytes rest) : code.Cut Open words bytes := by
  obtain ⟨hall, hlast⟩ := h
  by_cases hrest : rest = []
  · rw [hrest, List.append_nil] at hall
    exact .inl hall
  · obtain ⟨whole, last, hwords, hopen, part, hpart⟩ := hlast hrest
    rw [hwords, stream_append, stream_cons, stream_nil, List.append_nil, ← hpart,
      List.append_assoc] at hall
    exact .inr ⟨whole, last, part, hwords, hopen, ⟨rest, List.append_cancel_left hall⟩, hpart.symm⟩

/-- The next word, or the front of one that may be in progress. -/
theorem word (h : code.Owes Open words bytes []) {a : α} {part rest : List β}
    (hsplit : part ++ rest = code.encode a) (hopen : rest ≠ [] → Open a) :
    code.Owes Open (words ++ [a]) (bytes ++ part) rest := by
  have hbytes := h.1
  rw [List.append_nil] at hbytes
  refine ⟨?_, fun hrest => ⟨words, a, rfl, hopen hrest, ?_⟩⟩
  · rw [List.append_assoc, hsplit, hbytes, stream_append, stream_cons, stream_nil, List.append_nil]
  · rw [hbytes]
    exact List.prefix_append _ _

/-- Some of what is owed. -/
theorem more {part : List β} (h : code.Owes Open words bytes (part ++ rest)) :
    code.Owes Open words (bytes ++ part) rest := by
  obtain ⟨hall, hlast⟩ := h
  refine ⟨by rw [List.append_assoc, hall], fun hrest => ?_⟩
  obtain ⟨whole, last, hwords, hopen, hpre⟩ :=
    hlast (List.append_ne_nil_of_right_ne_nil part hrest)
  exact ⟨whole, last, hwords, hopen, hpre.trans (List.prefix_append _ _)⟩

/-- A word that may not be in progress cannot come while something is owed. -/
theorem not_cut (h : code.Owes Open words bytes rest) (hrest : rest ≠ []) {a : α} (ha : ¬ Open a) :
    ¬ code.Cut Open (words ++ [a]) (bytes ++ code.encode a) := by
  rintro (hall | ⟨whole, last, part, hwords, hopen, _⟩)
  · have howed := congrArg List.length h.1
    have hlen := congrArg List.length hall
    have hpos := List.length_pos_iff.mpr hrest
    rw [List.length_append] at howed
    rw [stream_append, stream_cons, stream_nil, List.append_nil, List.length_append,
      List.length_append] at hlen
    omega
  · obtain ⟨_, hlast⟩ := List.append_inj' hwords rfl
    obtain ⟨rfl, _⟩ := List.cons.inj hlast
    exact ha hopen

end Owes

/-! ## Cutting a stream at a length -/

/-- The words that lie whole in the first `n` symbols of a stream. -/
def whole : List α → Nat → List α
  | [], _ => []
  | a :: l, n =>
      if (code.encode a).length ≤ n then a :: whole l (n - (code.encode a).length) else []

theorem whole_append (l m : List α) (n : Nat) :
    code.whole (l ++ m) ((code.stream l).length + n) = l ++ code.whole m n := by
  induction l with
  | nil => simp
  | cons a l ih =>
      have hlen : (code.stream (a :: l)).length + n - (code.encode a).length =
          (code.stream l).length + n := by
        rw [stream_cons, List.length_append]
        omega
      rw [List.cons_append, whole, hlen, if_pos, ih, List.cons_append]
      rw [stream_cons, List.length_append]
      omega

theorem Pending.whole_eq_nil {rest : List β} {tail : List α} (h : code.Pending rest tail) :
    code.whole tail rest.length = [] := by
  cases tail with
  | nil => rfl
  | cons a tail =>
      rw [whole, if_neg]
      exact Nat.not_le.mpr h.length_lt

/-- A settled decoder has put out the words that are whole. -/
theorem Settled.eq_whole {sent words : List α} {got : List β}
    (h : code.Settled sent got words) : words = code.whole sent got.length := by
  obtain ⟨tail, rest, hsent, hgot, hpending⟩ := h
  rw [hsent, hgot, List.length_append, whole_append, hpending.whole_eq_nil, List.append_nil]

end PrefixCode
