/-
# The receive loop of the hub link (`hub_client.rs`)

A packet is a length and as many bytes. The loop reads until the socket has no more or the buffer
holds the longest packet, hands over every packet that is complete, and drops the link where a
length is out of range.

* `packets_of_stream` — whatever the reads are cut into, the packets handed over are those of the
  stream, and a round that stops at a full buffer has taken a packet out of it.
-/
import IrcBot.HubSession
import IrcBot.Net
import IrcBot.Lib.Splitter

namespace IrcBot.HubFraming

open Cstr Crypto Envelope HubSession Net Lib

/-! ### The packets of a stream -/

theorem nextPacket_item {a rest body : Str} (h : nextPacket a = some (some (body, rest))) :
    4 + beNat (a.take 4) ≤ a.length ∧ 0 < beNat (a.take 4) ∧
      body = (a.drop 4).take (beNat (a.take 4)) ∧ rest = a.drop (4 + beNat (a.take 4)) ∧
      ¬ (beNat (a.take 4) = 0 ∨ maxHubFrame < beNat (a.take 4)) := by
  unfold nextPacket at h
  dsimp only at h
  split at h
  · cases h
  · split at h
    · cases h
    · rename_i hrange
      split at h
      · cases h
      · rename_i hlong
        cases h
        rw [Bool.or_eq_true, decide_eq_true_eq, decide_eq_true_eq] at hrange
        exact ⟨Nat.not_lt.mp hlong, Nat.pos_of_ne_zero fun h => hrange (.inl h), rfl, rfl, hrange⟩

theorem nextPacket_refused {a : Str} (h : nextPacket a = some none) :
    4 ≤ a.length ∧ (beNat (a.take 4) = 0 ∨ maxHubFrame < beNat (a.take 4)) := by
  unfold nextPacket at h
  dsimp only at h
  split at h
  · cases h
  · rename_i hshort
    split at h
    · rename_i hrange
      rw [Bool.or_eq_true, decide_eq_true_eq, decide_eq_true_eq] at hrange
      exact ⟨Nat.not_lt.mp hshort, hrange⟩
    · split at h
      · cases h
      · cases h

theorem nextPacket_shorter {a rest body : Str} (h : nextPacket a = some (some (body, rest))) :
    rest.length + 5 ≤ a.length := by
  obtain ⟨hlong, hpos, -, rfl, -⟩ := nextPacket_item h
  rw [List.length_drop]
  omega

/-- The packets of a stream, up to the first length that is out of range. -/
def packets : Splitter UInt8 Str where
  next := nextPacket
  shorter := fun h => by
    have hshort := nextPacket_shorter h
    omega
  stable := fun {a} b {body rest} h => by
    obtain ⟨hlong, hpos, rfl, rfl, hrange⟩ := nextPacket_item h
    have hhead : (a ++ b).take 4 = a.take 4 := List.take_append_of_le_length (by omega)
    have hlong' : ¬ (a ++ b).length < 4 + beNat (a.take 4) := by
      rw [List.length_append]
      omega
    unfold nextPacket
    dsimp only
    rw [hhead, if_neg (by rw [List.length_append]; omega),
      if_neg (by rwa [Bool.or_eq_true, decide_eq_true_eq, decide_eq_true_eq]), if_neg hlong',
      List.drop_append_of_le_length (by omega), List.drop_append_of_le_length hlong,
      List.take_append_of_le_length (by rw [List.length_drop]; omega)]
  refused := fun {a} b h => by
    obtain ⟨hlong, hrange⟩ := nextPacket_refused h
    have hhead : (a ++ b).take 4 = a.take 4 := List.take_append_of_le_length hlong
    unfold nextPacket
    dsimp only
    rw [hhead, if_neg (by rw [List.length_append]; omega),
      if_pos (by rwa [Bool.or_eq_true, decide_eq_true_eq, decide_eq_true_eq])]

theorem split_packet {a rest body : Str} (h : nextPacket a = some (some (body, rest))) :
    packets.split a = (body :: (packets.split rest).1, (packets.split rest).2) := by
  have hnext : packets.next a = some (some (body, rest)) := h
  exact Splitter.split_item hnext

theorem split_waiting {a : Str} (h : nextPacket a = none) : packets.split a = ([], some a) := by
  have hnext : packets.next a = none := h
  exact Splitter.split_none hnext

theorem split_bad {a : Str} (h : nextPacket a = some none) : packets.split a = ([], none) := by
  have hnext : packets.next a = some none := h
  exact Splitter.split_refused hnext

/-- A length is read back as it was written. -/
theorem beNat_frame {body : Str} (h : body.length ≤ maxHubFrame) (rest : Str) :
    beNat ((frame body ++ rest).take 4) = body.length := by
  have hmax : maxHubFrame < 4294967296 := by decide
  generalize hn : body.length = n at h
  have hhead : (frame body ++ rest).take 4 =
      [UInt8.ofNat (n >>> 24), UInt8.ofNat (n >>> 16), UInt8.ofNat (n >>> 8), UInt8.ofNat n] := by
    subst hn
    rfl
  rw [hhead]
  simp only [beNat, List.foldl_cons, List.foldl_nil, UInt8.toNat_ofNat', Nat.shiftRight_eq_div_pow]
  omega

theorem nextPacket_frame {body : Str} (hpos : 0 < body.length) (hmax : body.length ≤ maxHubFrame)
    (rest : Str) : nextPacket (frame body ++ rest) = some (some (body, rest)) := by
  have hlen : (frame body ++ rest).length = 4 + body.length + rest.length := by
    rw [List.length_append]
    exact congrArg (· + rest.length) (Nat.add_comm body.length 4)
  have hdrop : (frame body ++ rest).drop 4 = body ++ rest := rfl
  have hrange : ¬ (decide (body.length = 0) || decide (maxHubFrame < body.length)) = true := by
    rw [Bool.or_eq_true, decide_eq_true_eq, decide_eq_true_eq]
    omega
  unfold nextPacket
  dsimp only
  rw [beNat_frame hmax, if_neg (by omega), if_neg hrange, if_neg (by omega),
    ← List.drop_drop, hdrop,
    List.take_left, List.drop_left]

/-- What is framed is taken apart again. -/
theorem split_frames {bodies : List Str}
    (h : ∀ body ∈ bodies, 0 < body.length ∧ body.length ≤ maxHubFrame) (rest : Str) :
    packets.split ((bodies.map frame).flatten ++ rest) =
      (bodies ++ (packets.split rest).1, (packets.split rest).2) := by
  induction bodies with
  | nil => rfl
  | cons body bodies ih =>
      obtain ⟨hpos, hmax⟩ := h body List.mem_cons_self
      have hnext := nextPacket_frame hpos hmax ((bodies.map frame).flatten ++ rest)
      rw [List.map_cons, List.flatten_cons, List.append_assoc,
        split_packet hnext, ih fun b hb => h b (List.mem_cons_of_mem body hb)]
      rfl

/-- The longest packet and its length. -/
def rbufCap : Nat := maxHubFrame + 4

/-- A full buffer has a packet in front, or a length that is out of range. -/
theorem nextPacket_full {a : Str} (h : rbufCap ≤ a.length) : nextPacket a ≠ none := by
  have hcap : rbufCap = maxHubFrame + 4 := rfl
  unfold nextPacket
  dsimp only
  rw [if_neg (by omega)]
  split
  · exact Option.some_ne_none _
  · rename_i hrange
    rw [Bool.or_eq_true, not_or, decide_eq_true_eq, decide_eq_true_eq, Nat.not_lt] at hrange
    rw [if_neg (by omega)]
    exact Option.some_ne_none _

theorem length_packets_le (a : Str) : 5 * (packets.split a).1.length ≤ a.length := by
  induction a using packets.split_induction with
  | hmore a h =>
      rw [Splitter.split_none h]
      exact Nat.zero_le _
  | hrefused a h =>
      rw [Splitter.split_refused h]
      exact Nat.zero_le _
  | hitem a x rest h ih =>
      have hshort := nextPacket_shorter h
      rw [Splitter.split_item h, List.length_cons]
      omega

/-! ### The loop -/

/-- The link is the one that the loop was entered for. -/
def Up (token : Nat) (s : Session) : Prop := s.sock = true ∧ s.linkNo = token

instance (token : Nat) (s : Session) : Decidable (Up token s) := inferInstanceAs (Decidable (_ ∧ _))

/-- What a round of the loop leaves, and whether there is another. -/
structure Round where
  again : Bool
  session : Session
  sock : List Read

/-- The session after the read of a round. -/
def filled (s : Session) (sock : List Read) : Session :=
  { s with rbuf := (readAvailable rbufCap sock s.rbuf).2.1 }

/-- The end of a round: where the buffer was full there may be more. -/
def endRound (token : Nat) (outcome : ReadOutcome) (taken : Bool × Session) (sock : List Read) :
    Round :=
  if !taken.1 then ⟨false, taken.2, sock⟩
  else
    match outcome with
    | .full => ⟨true, taken.2, sock⟩
    | .drained => ⟨false, taken.2, sock⟩
    | .eof | .failed => ⟨false, if Up token taken.2 then taken.2.disconnect else taken.2, sock⟩

section

variable (P : Primitives) (ed25519Sign : Str → Str → Str) (R : Rest) (token : Nat)

/-- One round of the loop of `handle_event`: what is there is read, and every complete packet
handed over. -/
def round (s : Session) (sock : List Read) : Round :=
  let read := readAvailable rbufCap sock s.rbuf
  endRound token read.1
    (takePackets P ed25519Sign R token (filled s sock).rbuf.length (filled s sock)) read.2.2

/-- `handle_event` of a readable link; nothing where the fuel did not do. -/
def handleReadable : Nat → Session → List Read → Option (Session × List Read)
  | 0, _, _ => none
  | fuel + 1, s, sock =>
      if Up token s then
        let r := round P ed25519Sign R token s sock
        if r.again then handleReadable fuel r.session r.sock else some (r.session, r.sock)
      else some (s, sock)

/-- No handler drops the link: it is there after each of the packets in the buffer. -/
def Keeps (s : Session) : Prop :=
  ∀ n ≤ (packets.split s.rbuf).1.length, Up token (takePackets P ed25519Sign R token n s).2

end

/-- The packet that was handed over on a link. -/
def bodyOn (token : Nat) : Event → Option Str
  | .packet link body => if link = token then some body else none
  | _ => none

/-- The packets that were handed over on a link. -/
def handed (token : Nat) (log : List Event) : List Str := log.filterMap (bodyOn token)

/-! ### What a handler leaves alone -/

/-- A handler gets a new link or leaves the buffer alone, and it hands over nothing. -/
structure Within (s s' : Session) : Prop where
  linkNo : s.linkNo ≤ s'.linkNo
  rbuf : s'.linkNo = s.linkNo → s'.rbuf = s.rbuf
  handed : ∀ token, handed token s'.log = handed token s.log

section

variable {s s' s'' : Session}

theorem Within.refl (s : Session) : Within s s := ⟨Nat.le_refl _, fun _ => rfl, fun _ => rfl⟩

theorem Within.trans (h : Within s s') (h' : Within s' s'') : Within s s'' := by
  refine ⟨Nat.le_trans h.linkNo h'.linkNo, fun heq => ?_,
    fun token => (h'.handed token).trans (h.handed token)⟩
  have hmid : s'.linkNo = s.linkNo := by
    have hfirst := h.linkNo
    have hsecond := h'.linkNo
    omega
  exact (h'.rbuf (by omega)).trans (h.rbuf hmid)

/-- What the link and its buffer have nothing to do with. -/
theorem within_of_eq (hlink : s'.linkNo = s.linkNo) (hrbuf : s'.rbuf = s.rbuf)
    (hlog : s'.log = s.log) : Within s s' :=
  ⟨Nat.le_of_eq hlink.symm, fun _ => hrbuf, fun _ => by rw [hlog]⟩

theorem Within.withBot (h : Within s s') (bot : BotState) : Within s { s' with bot := bot } :=
  h.trans (within_of_eq rfl rfl rfl)

theorem Within.withLink (h : Within s s') (f : HubLink → HubLink) : Within s (s'.withLink f) :=
  h.trans (within_of_eq rfl rfl rfl)

theorem Within.note (h : Within s s') {e : Event} (he : ∀ token, HubFraming.handed token [e] = []) :
    Within s (s'.note e) := by
  refine ⟨h.linkNo, h.rbuf, fun token => ?_⟩
  calc HubFraming.handed token (s'.log ++ [e])
      = HubFraming.handed token s'.log ++ HubFraming.handed token [e] := List.filterMap_append
    _ = HubFraming.handed token s.log := by rw [he token, List.append_nil, h.handed token]

theorem within_sendRaw (s : Session) (data : Str) : Within s (s.sendRaw data).2 := by
  rcases sendRaw_cases s data with h | h | ⟨left, h⟩
  · rw [h]
    exact .refl s
  · rw [h]
    exact within_of_eq rfl rfl rfl
  · rw [h]
    refine Within.note ?_ fun _ => rfl
    exact within_of_eq rfl rfl rfl

theorem within_sendFrame (s : Session) (cmd : UInt8) (payload : Str) :
    Within s (s.sendFrame cmd payload).2 := by
  rcases sendFrame_cases s cmd payload with h | ⟨-, h | ⟨left, out, h⟩⟩
  · rw [h]
    exact .refl s
  · rw [h]
    refine Within.note ?_ fun _ => rfl
    exact within_of_eq rfl rfl rfl
  · rw [h]
    refine Within.note ?_ fun _ => rfl
    exact within_of_eq rfl rfl rfl

theorem within_openLink (s : Session) (hub pin : Str) (budget : Option Nat) :
    Within s (openLink s hub pin budget) := by
  refine ⟨Nat.le_succ _, fun heq => absurd heq (Nat.succ_ne_self _), fun token => ?_⟩
  exact List.filterMap_append.trans (List.append_nil _)

theorem within_sendUuid (s : Session) : Within s (sendUuid s) := by
  refine (within_sendRaw s (frame s.bot.botUuid)).trans ?_
  unfold sendUuid
  dsimp only
  split
  · exact within_of_eq rfl rfl rfl
  · exact within_of_eq rfl rfl rfl

theorem within_connect (s : Session) (idx : Nat) (reached : Bool) (budget : Option Nat) :
    Within s (connect s idx reached budget) := by
  unfold connect
  dsimp only
  split
  · exact .refl s
  · split
    · exact within_of_eq rfl rfl rfl
    · split
      · exact .refl s
      · split
        · exact within_of_eq rfl rfl rfl
        · split
          · exact within_of_eq rfl rfl rfl
          · refine Within.trans (Within.trans ?_ (within_openLink _ _ _ budget)) (within_sendUuid _)
            exact within_of_eq rfl rfl rfl

variable (P : Primitives)

theorem within_perform (s : Session) (o : Op) : Within s (perform P s o) := by
  cases o with
  | send cmd payload => exact within_sendFrame s cmd payload
  | disconnect => exact within_of_eq rfl rfl rfl
  | dropLink => exact within_of_eq rfl rfl rfl
  | connect idx reached budget => exact within_connect s idx reached budget
  | decodeKey => exact within_of_eq rfl rfl rfl
  | other bot edPubs => exact within_of_eq rfl rfl rfl

theorem within_performAll (ops : List Op) : ∀ s, Within s (ops.foldl (perform P) s) := by
  induction ops with
  | nil => exact fun s => .refl s
  | cons o ops ih => exact fun s => (within_perform P s o).trans (ih _)

theorem within_handleChallenge (ed25519Sign : Str → Str → Str) (s : Session) (body : Str) :
    Within s (handleChallenge P ed25519Sign s body) := by
  unfold handleChallenge
  dsimp only
  split
  · exact within_of_eq rfl rfl rfl
  · split
    · exact within_of_eq rfl rfl rfl
    · split
      · exact within_of_eq rfl rfl rfl
      · split
        · exact within_of_eq rfl rfl rfl
        · split
          · exact within_of_eq rfl rfl rfl
          · have hsigned (bot bot' : BotState) (f : HubLink → HubLink) :
                Within s { { s with bot := bot }.withLink f with bot := bot' } :=
              (((Within.refl s).withBot bot).withLink f).withBot bot'
            split
            · refine Within.withLink (Within.trans ?_ (within_sendRaw _ _)) _
              exact hsigned _ _ _
            · refine Within.trans ?_ (within_sendRaw _ _)
              exact hsigned _ _ _

variable (R : Rest)

theorem within_handleAck (s : Session) (body : Str) : Within s (handleAck P R s body) := by
  unfold handleAck
  dsimp only
  split
  · exact within_of_eq rfl rfl rfl
  · split
    · exact within_of_eq rfl rfl rfl
    · refine Within.trans ?_ (within_performAll P _ _)
      exact within_of_eq rfl rfl rfl

theorem within_handlePlain (s : Session) (plain : Str) : Within s (handlePlain P R s plain) := by
  unfold handlePlain
  dsimp only
  split
  · unfold answerPing
    dsimp only
    split
    · refine (within_sendFrame s cmdPing []).trans ?_
      split
      · exact within_of_eq rfl rfl rfl
      · exact .refl _
    · exact .refl s
  · split
    · exact .refl s
    · exact (Within.note (.refl s) fun _ => rfl).trans (within_performAll P _ _)

/-- **A packet's handler gets a new link or leaves the buffer alone.** -/
theorem within_processPacket (ed25519Sign : Str → Str → Str) (s : Session) (body : Str) :
    Within s (processPacket P ed25519Sign R s body) := by
  unfold processPacket
  dsimp only
  split
  · split
    · exact within_handleChallenge P ed25519Sign s body
    · exact within_handleAck P R s body
    · exact .refl s
  · split
    · exact within_of_eq rfl rfl rfl
    · split
      · exact within_of_eq rfl rfl rfl
      · refine Within.trans ?_ (within_handlePlain P R _ _)
        exact within_of_eq rfl rfl rfl

end

/-! ### Taking the packets -/

section

variable {P : Primitives} {ed25519Sign : Str → Str → Str} {R : Rest} {token : Nat} {s : Session}

theorem not_up_disconnect (token : Nat) (s : Session) : ¬ Up token s.disconnect :=
  fun h => Bool.noConfusion h.1

/-- The session after a packet was handed over. -/
def served (P : Primitives) (ed25519Sign : Str → Str → Str) (R : Rest) (token : Nat) (s : Session)
    (body rest : Str) : Session :=
  processPacket P ed25519Sign R ({ s with rbuf := rest }.note (.packet token body)) body

theorem served_rbuf {body rest : Str} (hup : Up token s)
    (hafter : Up token (served P ed25519Sign R token s body rest)) :
    (served P ed25519Sign R token s body rest).rbuf = rest :=
  (within_processPacket P R ed25519Sign _ body).rbuf (hafter.2.trans hup.2.symm)

theorem served_handed (s : Session) (body rest : Str) :
    handed token (served P ed25519Sign R token s body rest).log = handed token s.log ++ [body] := by
  refine ((within_processPacket P R ed25519Sign _ body).handed token).trans ?_
  have hone : handed token [Event.packet token body] = [body] := by
    have hon : bodyOn token (.packet token body) = some body := if_pos rfl
    rw [handed, List.filterMap_cons, hon]
    rfl
  calc handed token (s.log ++ [Event.packet token body])
      = handed token s.log ++ handed token [Event.packet token body] := List.filterMap_append
    _ = handed token s.log ++ [body] := by rw [hone]

theorem takePackets_down {fuel : Nat} (h : ¬ Up token s) :
    takePackets P ed25519Sign R token (fuel + 1) s = (false, s) := by
  rw [takePackets, if_pos]
  rw [Bool.or_eq_true, Bool.not_eq_true', decide_eq_true_eq]
  by_contra hnot
  rw [not_or, Bool.not_eq_false, not_not] at hnot
  exact h hnot

theorem takePackets_up {fuel : Nat} (h : Up token s) :
    takePackets P ed25519Sign R token (fuel + 1) s =
      match nextPacket s.rbuf with
      | none => (true, s)
      | some none => (false, s.disconnect)
      | some (some (body, rest)) =>
          takePackets P ed25519Sign R token fuel (served P ed25519Sign R token s body rest) := by
  rw [takePackets, if_neg]
  · rfl
  · rw [Bool.or_eq_true, Bool.not_eq_true', decide_eq_true_eq, not_or, Bool.not_eq_false, not_not]
    exact h

theorem takePackets_item {fuel : Nat} {body rest : Str} (h : Up token s)
    (hnext : nextPacket s.rbuf = some (some (body, rest))) :
    takePackets P ed25519Sign R token (fuel + 1) s =
      takePackets P ed25519Sign R token fuel (served P ed25519Sign R token s body rest) := by
  rw [takePackets_up h, hnext]

/-- The handler of the first packet keeps the link, and so do those of the others. -/
theorem Keeps.item {body rest : Str} (h : Keeps P ed25519Sign R token s)
    (hnext : nextPacket s.rbuf = some (some (body, rest))) :
    Up token (served P ed25519Sign R token s body rest) ∧
      Keeps P ed25519Sign R token (served P ed25519Sign R token s body rest) := by
  have hup : Up token s := h 0 (Nat.zero_le _)
  have hcount : (packets.split s.rbuf).1.length = (packets.split rest).1.length + 1 := by
    rw [split_packet hnext, List.length_cons]
  have hstep (n : Nat) (hn : n ≤ (packets.split rest).1.length) :
      Up token (takePackets P ed25519Sign R token n (served P ed25519Sign R token s body rest)).2 := by
    have hafter := h (n + 1) (by omega)
    rwa [takePackets_item hup hnext] at hafter
  have hserved : Up token (served P ed25519Sign R token s body rest) := hstep 0 (Nat.zero_le _)
  refine ⟨hserved, fun n hn => hstep n ?_⟩
  rwa [served_rbuf hup hserved] at hn

/-- **Where no handler drops the link, all packets in the buffer are handed over**, and the link
is dropped where a length is out of range. -/
theorem takePackets_keeps (fuel : Nat) : ∀ {s : Session}, Keeps P ed25519Sign R token s →
    (packets.split s.rbuf).1.length < fuel →
    let taken := takePackets P ed25519Sign R token fuel s
    handed token taken.2.log = handed token s.log ++ (packets.split s.rbuf).1 ∧
      ((∃ r, (packets.split s.rbuf).2 = some r ∧ taken.1 = true ∧ Up token taken.2 ∧
          taken.2.rbuf = r) ∨
        ((packets.split s.rbuf).2 = none ∧ taken.1 = false ∧ ¬ Up token taken.2)) := by
  induction fuel with
  | zero => exact fun _ hlt => absurd hlt (Nat.not_lt_zero _)
  | succ fuel ih =>
      intro s hkeep hlt
      have hup : Up token s := hkeep 0 (Nat.zero_le _)
      cases hnext : nextPacket s.rbuf with
      | none =>
          rw [takePackets_up hup, hnext, split_waiting hnext]
          exact ⟨(List.append_nil _).symm, .inl ⟨_, rfl, rfl, hup, rfl⟩⟩
      | some o =>
          cases o with
          | none =>
              rw [takePackets_up hup, hnext, split_bad hnext]
              exact ⟨(List.append_nil _).symm, .inr ⟨rfl, rfl, not_up_disconnect token s⟩⟩
          | some p =>
              obtain ⟨body, rest⟩ := p
              obtain ⟨hserved, hkeep'⟩ := hkeep.item hnext
              have hsplit := split_packet hnext
              have hrbuf := served_rbuf hup hserved
              rw [hsplit, List.length_cons] at hlt
              have htaken := ih hkeep' (by rw [hrbuf]; omega)
              rw [takePackets_item hup hnext, hsplit]
              rw [hrbuf, served_handed] at htaken
              dsimp only at htaken ⊢
              rw [htaken.1, List.append_assoc]
              exact ⟨rfl, htaken.2⟩

/-- The length of the buffer is fuel enough. -/
theorem takePackets_all (hkeep : Keeps P ed25519Sign R token s) :
    let taken := takePackets P ed25519Sign R token s.rbuf.length s
    handed token taken.2.log = handed token s.log ++ (packets.split s.rbuf).1 ∧
      ((∃ r, (packets.split s.rbuf).2 = some r ∧ taken.1 = true ∧ Up token taken.2 ∧
          taken.2.rbuf = r) ∨
        ((packets.split s.rbuf).2 = none ∧ taken.1 = false ∧ ¬ Up token taken.2)) := by
  have hcount := length_packets_le s.rbuf
  rcases Nat.eq_zero_or_pos s.rbuf.length with hzero | hpos
  · have hnil := List.eq_nil_of_length_eq_zero hzero
    have hsplit : packets.split s.rbuf = ([], some s.rbuf) := split_waiting (by rw [hnil]; rfl)
    rw [hzero, hsplit]
    exact ⟨(List.append_nil _).symm, .inl ⟨_, rfl, rfl, hkeep 0 (Nat.zero_le _), rfl⟩⟩
  · exact takePackets_keeps _ hkeep (by omega)

/-- What is left in the buffer when a round is through, whatever the handlers do. -/
theorem takePackets_left (fuel : Nat) : ∀ {s : Session}, s.rbuf.length ≤ fuel → 0 < fuel →
    (takePackets P ed25519Sign R token fuel s).1 = true →
    Up token (takePackets P ed25519Sign R token fuel s).2 ∧
      (takePackets P ed25519Sign R token fuel s).2.rbuf.length ≤ s.rbuf.length ∧
      (nextPacket s.rbuf ≠ none →
        (takePackets P ed25519Sign R token fuel s).2.rbuf.length < s.rbuf.length) := by
  induction fuel with
  | zero => exact fun _ hpos => absurd hpos (Nat.lt_irrefl 0)
  | succ fuel ih =>
      intro s hlen _ hthrough
      by_cases hup : Up token s
      · cases hnext : nextPacket s.rbuf with
        | none =>
            rw [takePackets_up hup, hnext]
            exact ⟨hup, Nat.le_refl _, fun h => absurd rfl h⟩
        | some o =>
            cases o with
            | none =>
                rw [takePackets_up hup, hnext] at hthrough
                exact Bool.noConfusion hthrough
            | some p =>
                obtain ⟨body, rest⟩ := p
                have hshort := nextPacket_shorter hnext
                rw [takePackets_item hup hnext] at hthrough ⊢
                obtain ⟨fuel, rfl⟩ : ∃ n, fuel = n + 1 := ⟨fuel - 1, by omega⟩
                by_cases hserved : Up token (served P ed25519Sign R token s body rest)
                · have hrbuf := served_rbuf hup hserved
                  obtain ⟨hend, hle, -⟩ := ih (by rw [hrbuf]; omega) (Nat.succ_pos _) hthrough
                  rw [hrbuf] at hle
                  exact ⟨hend, by omega, fun _ => by omega⟩
                · rw [takePackets_down hserved] at hthrough
                  exact Bool.noConfusion hthrough
      · rw [takePackets_down hup] at hthrough
        exact Bool.noConfusion hthrough

/-! ### Rounds -/

/-- The packets that are still to come: those in the buffer and on the socket. -/
def pending (s : Session) (sock : List Read) : List Str × Option Str :=
  packets.split (s.rbuf ++ unread sock)

theorem filled_stream (s : Session) (sock : List Read) :
    s.rbuf ++ unread sock =
      (filled s sock).rbuf ++ unread (readAvailable rbufCap sock s.rbuf).2.2 := by
  obtain ⟨got, hinto, hsock⟩ := (reads rbufCap sock s.rbuf).got
  rw [hsock, ← List.append_assoc]
  exact congrArg (· ++ _) hinto.symm

/-- A round in which no handler drops the link hands over what comes next. The link is there after
it, or the stream was refused or has ended. -/
theorem round_keeps {sock : List Read} (hkeep : Keeps P ed25519Sign R token (filled s sock)) :
    let r := round P ed25519Sign R token s sock
    (Up token r.session ∧ nextPacket r.session.rbuf = none ∧
        pending s sock = ((packets.split (filled s sock).rbuf).1 ++ (pending r.session r.sock).1,
          (pending r.session r.sock).2) ∧
        handed token r.session.log =
          handed token s.log ++ (packets.split (filled s sock).rbuf).1) ∨
      (¬ Up token r.session ∧ handed token r.session.log = handed token s.log ++ (pending s sock).1 ∧
        ((pending s sock).2 = none ∨ Closed r.sock)) := by
  obtain ⟨hhanded, hend⟩ := takePackets_all hkeep
  have hclosed := (reads rbufCap sock s.rbuf).closed
  unfold round pending
  rw [filled_stream]
  dsimp only at hhanded hend ⊢
  generalize takePackets P ed25519Sign R token (filled s sock).rbuf.length (filled s sock) = taken
    at hhanded hend ⊢
  generalize readAvailable rbufCap sock s.rbuf = read at hclosed ⊢
  unfold endRound
  rcases hend with ⟨r, hleft, hthrough, hup, hrbuf⟩ | ⟨hbad, hout, hdown⟩
  · have hnext : nextPacket r = none := Splitter.next_split_snd (S := packets) hleft
    rw [hthrough, Splitter.split_append (S := packets) hleft, if_neg (by decide)]
    -- behind the end of the stream there is nothing
    have hshut (hshut : Closed read.2.2) :
        ¬ Up token (if Up token taken.2 then taken.2.disconnect else taken.2) ∧
          handed token (if Up token taken.2 then taken.2.disconnect else taken.2).log =
            handed token s.log ++ ((packets.split (filled s sock).rbuf).1 ++
              (packets.split (r ++ unread read.2.2)).1) ∧
          ((packets.split (r ++ unread read.2.2)).2 = none ∨ Closed read.2.2) := by
      rw [if_pos hup, unread_of_closed hshut, List.append_nil,
        split_waiting hnext, List.append_nil]
      exact ⟨not_up_disconnect token taken.2, hhanded, .inr hshut⟩
    cases hread : read.1 with
    | full => exact .inl ⟨hup, hrbuf ▸ hnext, by rw [hrbuf], hhanded⟩
    | drained => exact .inl ⟨hup, hrbuf ▸ hnext, by rw [hrbuf], hhanded⟩
    | eof => exact .inr (hshut (hclosed (.inl hread)))
    | failed => exact .inr (hshut (hclosed (.inr hread)))
  · rw [hout, if_pos (by rfl), Splitter.split_append_refused (S := packets) hbad]
    exact .inr ⟨hdown, hhanded, .inl hbad⟩

theorem endRound_again {outcome : ReadOutcome} {taken : Bool × Session} {sock : List Read}
    (h : (endRound token outcome taken sock).again = true) :
    outcome = .full ∧ taken.1 = true ∧
      endRound token outcome taken sock = ⟨true, taken.2, sock⟩ := by
  obtain ⟨through, s⟩ := taken
  cases through with
  | false => exact Bool.noConfusion h
  | true =>
      cases outcome with
      | full => exact ⟨rfl, rfl, rfl⟩
      | drained => exact Bool.noConfusion h
      | eof => exact Bool.noConfusion h
      | failed => exact Bool.noConfusion h

/-- **A round that stops at a full buffer has taken a packet out of it.** -/
theorem round_again {sock : List Read} (h : (round P ed25519Sign R token s sock).again = true) :
    Up token (round P ed25519Sign R token s sock).session ∧
      (round P ed25519Sign R token s sock).session.rbuf.length +
          (unread (round P ed25519Sign R token s sock).sock).length <
        s.rbuf.length + (unread sock).length := by
  obtain ⟨houtcome, hthrough, hround⟩ := endRound_again h
  have hfull : rbufCap ≤ (filled s sock).rbuf.length :=
    (reads rbufCap sock s.rbuf).full.mp houtcome
  obtain ⟨hup, -, hless⟩ := takePackets_left _ (Nat.le_refl (filled s sock).rbuf.length)
    (Nat.lt_of_lt_of_le (by decide) hfull) hthrough
  have hstream := congrArg List.length (filled_stream s sock)
  rw [List.length_append, List.length_append] at hstream
  have hshort := hless (nextPacket_full hfull)
  unfold round
  dsimp only
  rw [hround]
  refine ⟨hup, ?_⟩
  dsimp only
  omega

/-- So the loop ends. -/
theorem handleReadable_ends (fuel : Nat) : ∀ {s : Session} {sock : List Read},
    s.rbuf.length + (unread sock).length < fuel →
    ∃ r, handleReadable P ed25519Sign R token fuel s sock = some r := by
  induction fuel with
  | zero => exact fun h => absurd h (Nat.not_lt_zero _)
  | succ fuel ih =>
      intro s sock hfuel
      unfold handleReadable
      dsimp only
      split
      · split
        · rename_i hagain
          have hless := (round_again hagain).2
          exact ih (by omega)
        · exact ⟨_, rfl⟩
      · exact ⟨_, rfl⟩

end

/-! ### Runs -/

section

variable (P : Primitives) (ed25519Sign : Str → Str → Str) (R : Rest) (token : Nat)

/-- What the bot does with a link whose socket gives `stream`, from the moment it is opened and
as long as no handler drops it: rounds of the receive loop, and anything else that leaves the
link up between them. -/
inductive Run (stream : Str) : Session → List Read → Prop
  | opened {s : Session} {sock : List Read} (hup : Up token s) (hrbuf : s.rbuf = [])
      (hlog : handed token s.log = []) (hsock : unread sock = stream) : Run stream s sock
  | rest {s : Session} {sock : List Read} (h : Run stream s sock) (hup : Up token s) (o : Op)
      (hafter : Up token (perform P s o)) : Run stream (perform P s o) sock
  | round {s : Session} {sock : List Read} (h : Run stream s sock) (hup : Up token s)
      (hkeep : Keeps P ed25519Sign R token (filled s sock)) :
      Run stream (round P ed25519Sign R token s sock).session
        (round P ed25519Sign R token s sock).sock

end

/-- What was handed over and what is to come are the packets of the stream. -/
structure Inv (token : Nat) (stream : Str) (s : Session) (sock : List Read) : Prop where
  up : Up token s → nextPacket s.rbuf = none ∧
    packets.split stream = (handed token s.log ++ (pending s sock).1, (pending s sock).2)
  down : ¬ Up token s → handed token s.log = (packets.split stream).1 ∧
    ((packets.split stream).2 = none ∨ Closed sock)

section

variable {P : Primitives} {ed25519Sign : Str → Str → Str} {R : Rest} {token : Nat} {stream : Str}
  {s : Session} {sock : List Read}

/-- The whole of `handle_event` is rounds of its loop. -/
theorem Run.handleReadable (hkeep : ∀ s sock, Run P ed25519Sign R token stream s sock → Up token s →
    Keeps P ed25519Sign R token (filled s sock)) (fuel : Nat) :
    ∀ {s : Session} {sock : List Read} {r : Session × List Read},
      Run P ed25519Sign R token stream s sock →
      HubFraming.handleReadable P ed25519Sign R token fuel s sock = some r →
      Run P ed25519Sign R token stream r.1 r.2 := by
  induction fuel with
  | zero => exact fun _ h => nomatch h
  | succ fuel ih =>
      intro s sock r h hrun
      unfold HubFraming.handleReadable at hrun
      dsimp only at hrun
      split at hrun
      · rename_i hup
        have hround := h.round hup (hkeep s sock h hup)
        split at hrun
        · exact ih hround hrun
        · cases hrun
          exact hround
      · cases hrun
        exact h

theorem Run.inv (h : Run P ed25519Sign R token stream s sock) : Inv token stream s sock := by
  induction h with
  | opened hup hrbuf hlog hsock =>
      refine ⟨fun _ => ⟨by rw [hrbuf]; rfl, ?_⟩, fun hdown => absurd hup hdown⟩
      rw [pending, hrbuf, hlog, hsock]
      rfl
  | @rest s sock _ hup o hafter ih =>
      have hwithin := within_perform P s o
      have hrbuf := hwithin.rbuf (hafter.2.trans hup.2.symm)
      refine ⟨fun _ => ?_, fun hdown => absurd hafter hdown⟩
      rw [pending, hrbuf, hwithin.handed token]
      exact ih.up hup
  | @round s sock _ hup hkeep ih =>
      obtain ⟨-, hsplit⟩ := ih.up hup
      rcases round_keeps hkeep with ⟨hafter, hnext, hpending, hhanded⟩ | ⟨hdown, hhanded, hend⟩
      · refine ⟨fun _ => ⟨hnext, ?_⟩, fun h => absurd hafter h⟩
        rw [hsplit, hpending, hhanded, List.append_assoc]
      · refine ⟨fun h => absurd h hdown, fun _ => ?_⟩
        rw [hsplit]
        exact ⟨hhanded, hend⟩

/-- **The packets handed over are those of the stream**, whatever the reads are cut into: never
others, and all of them once the stream is read, or the link dropped, which happens where a length
is out of range or the stream ends. And the loop gets on, also where the buffer is full. -/
theorem packets_of_stream (h : Run P ed25519Sign R token stream s sock) :
    handed token s.log <+: (packets.split stream).1 ∧
      (Up token s → unread sock = [] →
        packets.split stream = (handed token s.log, some s.rbuf)) ∧
      (¬ Up token s → handed token s.log = (packets.split stream).1 ∧
        ((packets.split stream).2 = none ∨ Closed sock)) ∧
      ((round P ed25519Sign R token s sock).again = true →
        (round P ed25519Sign R token s sock).session.rbuf.length +
            (unread (round P ed25519Sign R token s sock).sock).length <
          s.rbuf.length + (unread sock).length) ∧
      ∃ fuel r, handleReadable P ed25519Sign R token fuel s sock = some r := by
  have hinv := h.inv
  refine ⟨?_, fun hup hread => ?_, hinv.down, fun hagain => (round_again hagain).2,
    _, handleReadable_ends _ (Nat.lt_succ_self _)⟩
  · by_cases hup : Up token s
    · rw [(hinv.up hup).2]
      exact List.prefix_append _ _
    · rw [(hinv.down hup).1]
  · obtain ⟨hnext, hsplit⟩ := hinv.up hup
    rw [hsplit, pending, hread, List.append_nil, split_waiting hnext,
      List.append_nil]

end

/-- A link on which packets are too short to be opened, and nothing else is done. -/
def wired (rbuf : Str) : Session :=
  { bot := { now := 100, link := { sock := true, authenticated := true } }, linkNo := 1, rbuf }

def quiet : Rest := ⟨fun _ _ _ => [], fun _ => []⟩

/-- Half a length first. -/
def cutUp : List Read := [.data [0, 0], .wouldBlock, .data [0, 1, 7, 0, 0], .data [0, 0]]

/-- Then the other half, its packet, and a length of 0. -/
def cutRest : List Read := [.data [0, 1, 7, 0, 0], .data [0, 0]]

theorem read_cutUp : readAvailable rbufCap cutUp [] = (.drained, [0, 0], cutRest) := by
  simp [readAvailable, cutUp, cutRest, rbufCap, maxHubFrame]

theorem read_cutRest :
    readAvailable rbufCap cutRest [0, 0] = (.drained, [0, 0, 0, 1, 7, 0, 0, 0, 0], []) := by
  simp [readAvailable, cutRest, rbufCap, maxHubFrame]

theorem filled_cutUp : filled (wired []) cutUp = wired [0, 0] :=
  congrArg (fun r : ReadOutcome × Str × List Read => wired r.2.1) read_cutUp

theorem filled_cutRest : filled (wired [0, 0]) cutRest = wired [0, 0, 0, 1, 7, 0, 0, 0, 0] :=
  congrArg (fun r : ReadOutcome × Str × List Read => wired r.2.1) read_cutRest

theorem round_cutUp :
    round .clear (fun _ _ => []) quiet 1 (wired []) cutUp = ⟨false, wired [0, 0], cutRest⟩ := by
  unfold round
  rw [filled_cutUp, show (wired []).rbuf = [] from rfl, read_cutUp]
  rfl

theorem keeps_cutUp : Keeps .clear (fun _ _ => []) quiet 1 (filled (wired []) cutUp) := by
  have hnext : nextPacket (wired [0, 0]).rbuf = none := by decide
  intro n hn
  rw [filled_cutUp] at hn ⊢
  rw [split_waiting hnext] at hn
  obtain rfl := Nat.le_zero.mp hn
  exact ⟨rfl, rfl⟩

theorem keeps_cutRest : Keeps .clear (fun _ _ => []) quiet 1 (filled (wired [0, 0]) cutRest) := by
  have hnext : nextPacket (wired [0, 0, 0, 1, 7, 0, 0, 0, 0]).rbuf =
    some (some ([7], [0, 0, 0, 0])) := by
    decide
  have hbad : nextPacket [0, 0, 0, 0] = some none := by decide
  intro n hn
  rw [filled_cutRest] at hn ⊢
  rw [split_packet hnext, split_bad hbad] at hn
  rcases Nat.le_one_iff_eq_zero_or_eq_one.mp hn with rfl | rfl
  · exact ⟨rfl, rfl⟩
  · exact ⟨rfl, rfl⟩

theorem packets_of_stream_cutUp :
    let r := round .clear (fun _ _ => []) quiet 1 (wired [0, 0]) cutRest
    handed 1 r.session.log <+: (packets.split [0, 0, 0, 1, 7, 0, 0, 0, 0]).1 ∧
      (Up 1 r.session → unread r.sock = [] →
        packets.split [0, 0, 0, 1, 7, 0, 0, 0, 0] = (handed 1 r.session.log, some r.session.rbuf)) ∧
      (¬ Up 1 r.session → handed 1 r.session.log = (packets.split [0, 0, 0, 1, 7, 0, 0, 0, 0]).1 ∧
        ((packets.split [0, 0, 0, 1, 7, 0, 0, 0, 0]).2 = none ∨ Closed r.sock)) ∧
      ((round .clear (fun _ _ => []) quiet 1 r.session r.sock).again = true →
        (round .clear (fun _ _ => []) quiet 1 r.session r.sock).session.rbuf.length +
            (unread (round .clear (fun _ _ => []) quiet 1 r.session r.sock).sock).length <
          r.session.rbuf.length + (unread r.sock).length) ∧
      ∃ fuel r', handleReadable .clear (fun _ _ => []) quiet 1 fuel r.session r.sock = some r' := by
  have hopened : Run .clear (fun _ _ => []) quiet 1 [0, 0, 0, 1, 7, 0, 0, 0, 0] (wired []) cutUp :=
    .opened ⟨rfl, rfl⟩ rfl rfl rfl
  have hfirst := hopened.round ⟨rfl, rfl⟩ keeps_cutUp
  rw [round_cutUp] at hfirst
  exact packets_of_stream (hfirst.round ⟨rfl, rfl⟩ keeps_cutRest)

end IrcBot.HubFraming
