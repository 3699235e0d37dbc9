/-
# One line in, one line out (`irc_client.rs`, `sendq.rs`)

What `irc_printf` is given may come from anybody. It takes one finished line; a reply may go
down a chat instead, or leave in sealed pieces. The queue cuts what is too long, and packs
MODE lines. `Sender` is what these read and write.

* `Reach.one_line` — whatever is sent, everything in the lanes and everything that the socket was
  handed is one line.
-/
import IrcBot.ModePacking

namespace IrcBot.Sendq

open Cstr Crypto

/-! ### Sending -/

/-- `A2rCtx`: how the replies to a sealed command are sealed. -/
structure A2rCtx where
  active : Bool := false
  key : Str := []
  aad : Str := []
  nick : Str := []
  seq : Nat := 0

/-- The queue, and where replies go. -/
structure Sender where
  wire : Wire := {}
  /-- The nick of the chat that `dcc_reply` names. -/
  dccReply : Option Str := none
  a2r : A2rCtx := {}
  /-- What went down chats. -/
  dccOut : List Str := []

/-- The text of a line "<verb> <nick> :<text>". -/
def replyText (verb nick line : Str) : Option Str :=
  let vl := verb.length + 1
  let head := vl + nick.length + 2
  if line.length < head + 2 || line.take vl ≠ verb ++ str " " ||
      (line.drop vl).take nick.length ≠ nick || (line.drop (vl + nick.length)).take 2 ≠ str " :" then
    none
  else some ((line.take (line.length - 2)).drop head)

/-- `divert_reply`: the text that goes down the chat. -/
def divertReply (s : Sender) (line : Str) : Option Str :=
  s.dccReply.bind fun nick => replyText (str "PRIVMSG") nick line

/-- `send_line`. -/
def sendLine (s : Sender) (line : Str) : Int × Sender :=
  match divertReply s line with
  | some text => (toI32 line.length, { s with dccOut := s.dccOut ++ [text] })
  | none =>
      if !s.wire.connected then (-1, s)
      else
        let (r, wire) := enqueue s.wire line
        (r, { s with wire })

section Primitives

variable (P : Primitives)

/-- `reply_seal`. -/
def replySeal (key aad pt : Str) : Option Str :=
  if a2rPtMax < pt.length then none else gcmSeal P key aad pt

/-- Where a piece ends: not within a character, if that can be. -/
def pieceEnd (text : Str) : Nat → Nat
  | 0 => 0
  | 1 => 1
  | n + 2 => if text.getD (n + 2) 0 &&& 0xC0 = 0x80 then pieceEnd text (n + 1) else n + 2

/-- How much of the text the next piece takes. -/
def pieceLen (text : Str) : Nat :=
  if a2rTextMax < text.length then pieceEnd text a2rTextMax else text.length

/-- The frame of a piece. -/
def sealedPiece (ctx : A2rCtx) (text : Str) : Option Str :=
  let cut := pieceLen text
  let pt := decNat ctx.seq ++ str ":" ++ (if cut < text.length then str "1" else str "0") ++ str ":"
  if pt.length + cut ≤ a2rPtMax then replySeal P ctx.key ctx.aad (pt ++ text.take cut) else none

/-- The loop of `a2r_seal_reply` over the text; each piece takes some of it. -/
def sealLoop (verb : Str) : Nat → Sender → Str → Int × Sender
  | 0, s, _ => (-1, s)
  | fuel + 1, s, text =>
      match sealedPiece P s.a2r text with
      | none => (-1, s)
      | some frame =>
          let out := verb ++ str " " ++ s.a2r.nick ++ str " :~A2R " ++ P.b64Encode frame ++ crlf
          if 640 ≤ out.length then (-1, s)
          else
            let (r, s) := sendLine s out
            if r < 0 then (r, s)
            else
              let s := { s with a2r := { s.a2r with seq := s.a2r.seq + 1 } }
              let text := text.drop (pieceLen text)
              if text.isEmpty then (r, s) else sealLoop verb fuel s text

/-- `a2r_seal_reply`: `none` for a line that is no reply to the asker. -/
def a2rSealReply (s : Sender) (line : Str) : Option (Int × Sender) :=
  let reply (verb : Str) : Option (Int × Sender) :=
    match replyText verb s.a2r.nick line with
    | none => none
    | some text =>
        if text.head? = some 1 then none else some (sealLoop P verb (text.length + 1) s text)
  if str "PRIVMSG " <+: line then reply (str "PRIVMSG")
  else if str "NOTICE " <+: line then reply (str "NOTICE")
  else none

/-- `irc_printf`. -/
def printf (s : Sender) (line : Str) : Int × Sender :=
  if !s.wire.connected && s.dccReply.isNone then (-1, s)
  else if maxBuffer ≤ line.length || !isSingleLine line then (-1, s)
  else
    match if s.a2r.active then a2rSealReply P s line else none with
    | some r => r
    | none => sendLine s line

end Primitives

/-- `disconnect`: what the credit is enough for goes out first. -/
def disconnect (w : Wire) : Wire :=
  if w.connected && w.sock then
    let w := (drain w).2
    if !w.connected && !w.sock then w else dropLink w
  else dropLink w

/-- A new link: the queue is emptied, and what 005 said is forgotten. -/
def linkUp (w : Wire) : Wire :=
  { w with q := clear w.q w.nowMs, connected := true, sock := true, modes := isupportModesDefault }

/-! ### One line -/

/-- A byte that no line has in it. -/
def isBad (c : UInt8) : Bool := c == 13 || c == 10 || c == 0

/-- Exactly one line of at most 512 bytes: CR LF ends it, and there is no other CR, LF or NUL. -/
def IsLine (line : Str) : Prop :=
  line.length ≤ 512 ∧ ∃ body, line = body ++ crlf ∧ ∀ c ∈ body, isBad c = false

/-- A single line, taken apart. -/
theorem body_of_isSingleLine {line : Str} (h : isSingleLine line = true) :
    line = line.take (line.length - 2) ++ crlf ∧
      ∀ c ∈ line.take (line.length - 2), isBad c = false := by
  unfold isSingleLine at h
  simp only [Bool.and_eq_true, decide_eq_true_eq, beq_iff_eq, Bool.not_eq_true'] at h
  obtain ⟨⟨-, hend⟩, hbody⟩ := h
  refine ⟨?_, fun c hc => ?_⟩
  · conv_lhs => rw [← List.take_append_drop (line.length - 2) line, hend]
    rfl
  · rw [List.any_eq_false] at hbody
    simpa [isBad] using hbody c hc

/-- What the queue keeps of a finished line is a line. -/
theorem isLine_queuedLine {line : Str} (h : isSingleLine line = true) :
    IsLine (queuedLine line) := by
  obtain ⟨-, hbody⟩ := body_of_isSingleLine h
  have hmax : sendqLineMax = 510 := rfl
  have hcrlf : crlf.length = 2 := rfl
  refine ⟨?_, line.take (min (line.length - 2) sendqLineMax), rfl, fun c hc => hbody c ?_⟩
  · rw [queuedLine, List.length_append, List.length_take]
    omega
  · exact List.take_subset_take_left line (Nat.min_le_left _ _) hc

/-- Everything in the lanes, and everything that the socket was handed. -/
structure Lines (w : Wire) : Prop where
  lanes : ∀ lane, ∀ line ∈ w.q.q lane, IsLine line
  raw : ∀ line ∈ w.raw, IsLine line

/-- Only the line's end breaks it. -/
theorem IsLine.not_bad {line : Str} (h : IsLine line) {c : UInt8} (hc : c ∈ line)
    (hbreak : isBreak c = false) : isBad c = false := by
  obtain ⟨-, body, rfl, hbody⟩ := h
  rcases List.mem_append.mp hc with hc | hc
  · exact hbody c hc
  · have hall : ∀ d ∈ crlf, isBreak d = true := forall_of_all (by decide)
    rw [hall c hc] at hbreak
    cases hbreak

/-- A mode letter is no break. -/
theorem not_bad_of_needsArg {s c : UInt8} {b : Bool} (h : needsArg s c = some b) :
    isBad c = false := by
  have hall : ∀ x ∈ str "ovhbeIklimnpst", isBad x = false := forall_of_all (by decide)
  exact hall c (mem_of_needsArg h)

/-- What is read from a line has no more in it than the line. -/
theorem not_bad_of_shape {line : Str} {it : ModeItem} (h : Shape line it) (hline : IsLine line) :
    (∀ c ∈ it.chan, isBad c = false) ∧ (∀ c ∈ it.arg, isBad c = false) := by
  obtain ⟨hok, verb, tail, rfl, -, htail⟩ := h
  constructor
  · intro c hc
    exact hline.not_bad (by simp [hc]) (hok.chan_clean c hc).2
  · intro c hc
    have hmem : c ∈ tail := by
      rcases htail with htail | ⟨-, hnil⟩
      · have hbody : c ∈ bodyOf tail := by
          rw [htail]
          exact List.mem_cons_of_mem _ hc
        exact (List.takeWhile_prefix _).subset hbody
      · rw [hnil] at hc
        cases hc
    exact hline.not_bad (by simp [hmem]) (hok.arg_clean c hc).2

/-- A packed line is a line. -/
theorem isLine_packedLine {limit : Nat} {line : Str} {group : List Str} {first : ModeItem}
    {its : List ModeItem} (hfirst : modeItemParse line = some first)
    (hreads : group.map modeItemParse = its.map some) (htogether : Together limit first its)
    (hlines : ∀ x ∈ line :: group, IsLine x) : IsLine (packedLine first.chan (first :: its)) := by
  have hread : (line :: group).map modeItemParse = (first :: its).map some := by
    rw [List.map_cons, List.map_cons, hfirst, hreads]
  have hclean : ∀ it ∈ first :: its, it.Ok ∧ (∀ c ∈ it.chan, isBad c = false) ∧
      ∀ c ∈ it.arg, isBad c = false := by
    intro it hit
    have hmem : some it ∈ (line :: group).map modeItemParse := by
      rw [hread]
      exact List.mem_map_of_mem hit
    obtain ⟨x, hx, hparse⟩ := List.mem_map.mp hmem
    have hshape := shape_of_modeItemParse hparse
    exact ⟨hshape.ok, not_bad_of_shape hshape (hlines x hx)⟩
  obtain ⟨hok, hchan, -⟩ := hclean first List.mem_cons_self
  refine ⟨le_trans (length_packedLine_le hok htogether) (by decide),
    str "MODE " ++ first.chan ++ str " " ++ signedLetters 0 (first :: its) ++
      packedArgs (first :: its), rfl, fun c hc => ?_⟩
  simp only [List.mem_append] at hc
  rcases hc with (((hc | hc) | hc) | hc) | hc
  · have hall : ∀ d ∈ str "MODE ", isBad d = false := forall_of_all (by decide)
    exact hall c hc
  · exact hchan c hc
  · have hall : ∀ d ∈ str " ", isBad d = false := forall_of_all (by decide)
    exact hall c hc
  · obtain ⟨it, hit, rfl | rfl⟩ := mem_signedLetters _ hc
    · rcases (hclean it hit).1.sign with hs | hs
      · rw [hs]
        decide
      · rw [hs]
        decide
    · exact not_bad_of_needsArg (hclean it hit).1.needs
  · obtain ⟨it, hit, hc⟩ := List.mem_flatMap.mp hc
    rcases List.mem_cons.mp hc with rfl | hc
    · decide
    · exact (hclean it (List.mem_filter.mp hit).1).2.2 c hc

/-! ### What the queue does with them -/

/-- What is taken out of the lanes is a line, and nothing comes in. -/
structure Takes1 (q : SendQ) (r : Option Str × SendQ) : Prop where
  line : ∀ x, r.1 = some x → IsLine x
  rest : ∀ lane, ∀ x ∈ r.2.q lane, x ∈ q.q lane

theorem mem_of_setLane {q : SendQ} {lane : Lane} {lines : List Str}
    (h : ∀ x ∈ lines, x ∈ q.q lane) : ∀ l, ∀ x ∈ (setLane q lane lines).q l, x ∈ q.q l := by
  intro l x hx
  by_cases hl : l = lane
  · subst hl
    exact h x (by simpa [setLane] using hx)
  · simpa [setLane, hl] using hx

/-- The first of a lane is taken. -/
theorem takes1_lanePop {q : SendQ} (h : ∀ lane, ∀ x ∈ q.q lane, IsLine x) (lane : Lane) :
    Takes1 q (lanePop q lane) := by
  cases hq : q.q lane with
  | nil =>
      have hnone : lanePop q lane = (none, q) := by
        unfold lanePop
        rw [hq]
      rw [hnone]
      exact ⟨by simp, fun _ _ hx => hx⟩
  | cons line lines =>
      rw [lanePop_of_cons hq]
      refine ⟨fun x hx => ?_, mem_of_setLane fun x hx => by rw [hq]; exact List.mem_cons_of_mem _ hx⟩
      obtain rfl := Option.some.inj hx
      exact h lane line (by rw [hq]; exact List.mem_cons_self)

/-- The first lines of the protection lane are taken, packed to one. -/
theorem takes1_takeProtection {q : SendQ} (h : ∀ lane, ∀ x ∈ q.q lane, IsLine x) {limit : Nat}
    (hlimit : 1 ≤ limit) : Takes1 q (takeProtection q limit) := by
  cases hq : q.q .prot with
  | nil =>
      have hnone : takeProtection q limit = (none, q) := by
        unfold takeProtection
        rw [hq]
      rw [hnone]
      exact ⟨by simp, fun _ _ hx => hx⟩
  | cons line lines =>
      cases hread : modeItemParse line with
      | none =>
          have hpop : takeProtection q limit = lanePop q .prot := by
            unfold takeProtection
            rw [hq]
            dsimp only
            rw [hread]
          rw [hpop]
          exact takes1_lanePop h .prot
      | some first =>
          obtain ⟨its, group, rest, rfl, hreads, htogether, -, htake⟩ :=
            takeProtection_packed hlimit hq hread
          rw [htake]
          refine ⟨fun x hx => ?_, mem_of_setLane fun x hx => by rw [hq]; simp [hx]⟩
          obtain rfl := Option.some.inj hx
          refine isLine_packedLine hread hreads htogether fun y hy => h .prot y ?_
          rw [hq]
          rcases List.mem_cons.mp hy with rfl | hy
          · exact List.mem_cons_self
          · simp [hy]

/-- The line that is next. -/
theorem takes1_nextLine {w : Wire} (h : Lines w) : Takes1 w.q (nextLine w) := by
  unfold nextLine
  split
  · exact takes1_lanePop h.lanes .proto
  · split
    · exact takes1_takeProtection h.lanes (modesLimit_pos w.modes)
    · exact takes1_lanePop h.lanes .rest

/-- A link that is dropped says good-bye on a line. -/
theorem lines_dropLink {w : Wire} (h : Lines w) : Lines (dropLink w) := by
  refine ⟨fun lane x hx => (by cases hx), fun line hline => ?_⟩
  have hraw : line ∈ w.raw ∨ line = str "QUIT :bye" ++ crlf := by
    unfold dropLink at hline
    dsimp only at hline
    split at hline
    · simpa using hline
    · exact .inl hline
  rcases hraw with hline | rfl
  · exact h.raw line hline
  · exact ⟨by decide, str "QUIT :bye", rfl, by decide +kernel⟩

/-- A line is written. -/
theorem lines_writeRaw {w : Wire} {line : Str} (h : Lines w) (hline : IsLine line) :
    Lines (writeRaw w line).2 := by
  have hwritten : Lines { w with raw := w.raw ++ [line] } := by
    refine ⟨h.lanes, fun x hx => ?_⟩
    rcases List.mem_append.mp hx with hx | hx
    · exact h.raw x hx
    · rwa [List.mem_singleton.mp hx]
  unfold writeRaw
  split
  · exact h
  · dsimp only
    split
    · exact lines_dropLink hwritten
    · exact ⟨hwritten.lanes, hwritten.raw⟩

/-- The loop that writes, line by line. -/
theorem lines_drainLoop (fuel : Nat) : ∀ (w : Wire) (sent : Int), Lines w →
    Lines (drainLoop fuel w sent).2 := by
  induction fuel with
  | zero =>
      intro w sent h
      exact h
  | succ fuel ih =>
      intro w sent h
      unfold drainLoop
      split
      · exact h
      · split
        · exact ⟨fun lane x hx => (by cases hx), h.raw⟩
        · have hnext := takes1_nextLine h
          split
          · rename_i q heq
            rw [heq] at hnext
            exact ⟨fun lane x hx => h.lanes lane x (hnext.rest lane x hx), h.raw⟩
          · rename_i line q heq
            rw [heq] at hnext
            have hpaid : Lines { w with q := { q with creditMs := q.creditMs - q.intervalMs } } :=
              ⟨fun lane x hx => h.lanes lane x (hnext.rest lane x hx), h.raw⟩
            have hwritten := lines_writeRaw hpaid (hnext.line line rfl)
            split
            · rename_i w' hwrite
              rw [hwrite] at hwritten
              exact hwritten
            · rename_i w' hwrite
              rw [hwrite] at hwritten
              exact ih w' (sent + 1) hwritten

/-- What may go out goes out. -/
theorem lines_drain {w : Wire} (h : Lines w) : Lines (drain w).2 := by
  unfold drain
  split
  · exact h
  · exact lines_drainLoop _ _ 0 ⟨h.lanes, h.raw⟩

/-- A line may give way to another. -/
theorem lanes_makeRoom {q q' : SendQ} {lane : Lane} {r : Bool}
    (h : ∀ l, ∀ x ∈ q.q l, IsLine x) (hmake : makeRoom q lane = (r, q')) :
    ∀ l, ∀ x ∈ q'.q l, IsLine x := by
  unfold makeRoom at hmake
  split at hmake
  · obtain ⟨-, rfl⟩ := Prod.mk.inj hmake
    exact h
  · split at hmake
    · obtain ⟨-, rfl⟩ := Prod.mk.inj hmake
      exact h
    · rename_i v _
      obtain ⟨-, rfl⟩ := Prod.mk.inj hmake
      exact fun l x hx => h l x ((takes1_lanePop h v).rest l x hx)

/-- **A single line is queued as one**, cut to size. -/
theorem lines_enqueue {w : Wire} {line : Str} (h : Lines w) (hline : isSingleLine line = true) :
    Lines (enqueue w line).2 := by
  unfold enqueue
  split
  · exact h
  · dsimp only
    split
    · exact h
    · split
      · rename_i q' hmake
        have hroom := lanes_makeRoom h.lanes hmake
        exact ⟨hroom, h.raw⟩
      · rename_i q' hmake
        have hroom := lanes_makeRoom h.lanes hmake
        have hput : Lines { w with q := { setLane q' (laneOf line)
            (q'.q (laneOf line) ++ [queuedLine line]) with total := q'.total + 1 } } := by
          refine ⟨fun l x hx => ?_, h.raw⟩
          by_cases hl : l = laneOf line
          · subst hl
            have hx : x ∈ q'.q (laneOf line) ++ [queuedLine line] := by simpa [setLane] using hx
            rcases List.mem_append.mp hx with hx | hx
            · exact hroom _ x hx
            · rw [List.mem_singleton.mp hx]
              exact isLine_queuedLine hline
          · exact hroom l x (by simpa [setLane, hl] using hx)
        split
        · have hdrain := lines_drain hput
          exact ⟨hdrain.lanes, hdrain.raw⟩
        · exact hput

/-- Whatever the queue does but take a line in. -/
theorem lines_run {w : Wire} {op : Op} (h : Lines w) (hop : ∀ line, op ≠ .enqueue line) :
    Lines (op.run w).2 := by
  cases op with
  | enqueue line => exact absurd rfl (hop line)
  | take =>
      have htake := takes1_takeProtection h.lanes (modesLimit_pos w.modes)
      exact ⟨fun lane x hx => h.lanes lane x (htake.rest lane x hx), h.raw⟩
  | drain => exact lines_drain h
  | hold => exact ⟨h.lanes, h.raw⟩
  | release =>
      show Lines (release w)
      unfold release
      split
      · exact h
      · dsimp only
        split
        · exact lines_drain ⟨h.lanes, h.raw⟩
        · exact ⟨h.lanes, h.raw⟩
  | nextMs =>
      have hnext : (nextMs w.q w.nowMs).2.q = w.q.q := by
        unfold nextMs
        split
        · rfl
        · dsimp only
          split <;> rfl
      refine ⟨fun lane x hx => h.lanes lane x ?_, h.raw⟩
      rw [← hnext]
      exact hx
  | clock ms => exact ⟨h.lanes, h.raw⟩
  | isupport modes => exact ⟨h.lanes, h.raw⟩

/-- The link goes down. -/
theorem lines_disconnect {w : Wire} (h : Lines w) : Lines (disconnect w) := by
  unfold disconnect
  split
  · dsimp only
    split
    · exact lines_drain h
    · exact lines_dropLink (lines_drain h)
  · exact lines_dropLink h

/-! ### What `irc_printf` hands on -/

/-- A body without breaks, and the line's end. -/
theorem isSingleLine_append {body : Str} (h : ∀ c ∈ body, isBad c = false) :
    isSingleLine (body ++ crlf) = true := by
  have hlen : (body ++ crlf).length - 2 = body.length := by simp [crlf]
  have hbody : (body.any fun c => c == 13 || c == 10 || c == 0) = false := by
    rw [List.any_eq_false]
    intro c hc
    simpa [isBad] using h c hc
  unfold isSingleLine
  rw [hlen, List.take_left, List.drop_left]
  dsimp only
  rw [hbody]
  simp [crlf]

/-- The nick of a reply stands in its line. -/
theorem not_bad_of_replyText {verb nick line text : Str} (h : replyText verb nick line = some text)
    (hline : isSingleLine line = true) : ∀ c ∈ nick, isBad c = false := by
  obtain ⟨-, hbody⟩ := body_of_isSingleLine hline
  unfold replyText at h
  dsimp only at h
  split at h
  · cases h
  · rename_i hshape
    simp only [Bool.or_eq_true, decide_eq_true_eq, not_or, not_lt, ne_eq, not_not] at hshape
    obtain ⟨⟨⟨hlen, -⟩, hnick⟩, -⟩ := hshape
    intro c hc
    rw [← hnick] at hc
    have hwithin : (line.drop (verb.length + 1)).take nick.length =
        ((line.take (line.length - 2)).drop (verb.length + 1)).take nick.length := by
      rw [List.drop_take, List.take_take]
      congr 1
      omega
    rw [hwithin] at hc
    exact hbody c (List.mem_of_mem_drop (List.mem_of_mem_take hc))

/-- A line goes to the chat or to the queue. -/
theorem lines_sendLine {s : Sender} {line : Str} (h : Lines s.wire)
    (hline : isSingleLine line = true) :
    Lines (sendLine s line).2.wire ∧ (sendLine s line).2.a2r = s.a2r := by
  unfold sendLine
  split
  · exact ⟨h, rfl⟩
  · split
    · exact ⟨h, rfl⟩
    · have hqueued := lines_enqueue h hline
      generalize enqueue s.wire line = r at *
      exact ⟨hqueued, rfl⟩

/-- The characters of base64. -/
def b64Chars : Str := str "ABCDEFGHIJKLMNOPQRSTUVWXYZabcdefghijklmnopqrstuvwxyz0123456789+/="

section Primitives

variable {P : Primitives}

/-- The pieces of a sealed reply, each on a line. -/
theorem lines_sealLoop (hb64 : ∀ x, ∀ c ∈ P.b64Encode x, c ∈ b64Chars) {verb : Str}
    (hverb : ∀ c ∈ verb, isBad c = false) (fuel : Nat) : ∀ (s : Sender) (text : Str), Lines s.wire →
      (∀ c ∈ s.a2r.nick, isBad c = false) → Lines (sealLoop P verb fuel s text).2.wire := by
  induction fuel with
  | zero =>
      intro s text h _
      exact h
  | succ fuel ih =>
      intro s text h hnick
      unfold sealLoop
      split
      · exact h
      · rename_i frame _
        have hout : isSingleLine
            (verb ++ str " " ++ s.a2r.nick ++ str " :~A2R " ++ P.b64Encode frame ++ crlf) = true := by
          refine isSingleLine_append fun c hc => ?_
          simp only [List.mem_append] at hc
          rcases hc with (((hc | hc) | hc) | hc) | hc
          · exact hverb c hc
          · have hall : ∀ d ∈ str " ", isBad d = false := forall_of_all (by decide)
            exact hall c hc
          · exact hnick c hc
          · have hall : ∀ d ∈ str " :~A2R ", isBad d = false := forall_of_all (by decide)
            exact hall c hc
          · have hall : ∀ d ∈ b64Chars, isBad d = false := forall_of_all (by decide)
            exact hall c (hb64 frame c hc)
        obtain ⟨hsent, ha2r⟩ := lines_sendLine h hout
        dsimp only
        split
        · exact h
        · split
          · exact hsent
          · split
            · exact hsent
            · exact ih _ _ hsent (by rw [ha2r]; exact hnick)

/-- A reply that is sealed. -/
theorem lines_a2rSealReply (hb64 : ∀ x, ∀ c ∈ P.b64Encode x, c ∈ b64Chars) {s : Sender}
    {line : Str} {r : Int × Sender} (h : Lines s.wire) (hline : isSingleLine line = true)
    (hreply : a2rSealReply P s line = some r) : Lines r.2.wire := by
  have hverb (verb : Str) (hclean : ∀ c ∈ verb, isBad c = false)
      (hr : (match replyText verb s.a2r.nick line with
        | none => none
        | some text =>
            if text.head? = some 1 then none
            else some (sealLoop P verb (text.length + 1) s text)) = some r) : Lines r.2.wire := by
    split at hr
    · cases hr
    · rename_i text htext
      split at hr
      · cases hr
      · obtain rfl := Option.some.inj hr
        exact lines_sealLoop hb64 hclean _ s text h (not_bad_of_replyText htext hline)
  unfold a2rSealReply at hreply
  dsimp only at hreply
  split at hreply
  · exact hverb (str "PRIVMSG") (by decide +kernel) hreply
  · split at hreply
    · exact hverb (str "NOTICE") (by decide +kernel) hreply
    · cases hreply

/-- **Whatever is printed goes out as single lines.** -/
theorem lines_printf (hb64 : ∀ x, ∀ c ∈ P.b64Encode x, c ∈ b64Chars) {s : Sender} (h : Lines s.wire)
    (line : Str) : Lines (printf P s line).2.wire := by
  unfold printf
  split
  · exact h
  · split
    · exact h
    · rename_i hrefused
      have hline : isSingleLine line = true := by
        simp only [Bool.or_eq_true, not_or, Bool.not_eq_true', Bool.not_eq_false] at hrefused
        exact hrefused.2
      split
      · rename_i r hreply
        split at hreply
        · exact lines_a2rSealReply hb64 h hline hreply
        · cases hreply
      · exact (lines_sendLine h hline).1

/-! ### Runs -/

/-- What can happen to the sender, whatever the link does. -/
inductive Happens (P : Primitives) (s : Sender) : Sender → Prop where
  | printf (text : Str) : Happens P s (printf P s text).2
  /-- The queue is drained, held, released or asked for its time, or its limits change. -/
  | queue (op : Op) (hop : ∀ line, op ≠ .enqueue line) :
      Happens P s { s with wire := (op.run s.wire).2 }
  | disconnect : Happens P s { s with wire := disconnect s.wire }
  | linkUp : Happens P s { s with wire := linkUp s.wire }
  /-- How many lines the socket will take. -/
  | socket (writesLeft : Option Nat) : Happens P s { s with wire := { s.wire with writesLeft } }
  /-- Where replies go. -/
  | replies (dccReply : Option Str) (a2r : A2rCtx) : Happens P s { s with dccReply, a2r }

inductive Reach (P : Primitives) (s₀ : Sender) : Sender → Prop where
  | start : Reach P s₀ s₀
  | step {s s' : Sender} (h : Reach P s₀ s) (hs : Happens P s s') : Reach P s₀ s'

/-- One step of a run. -/
theorem Happens.lines (hb64 : ∀ x, ∀ c ∈ P.b64Encode x, c ∈ b64Chars) {s s' : Sender}
    (hs : Happens P s s') (h : Lines s.wire) : Lines s'.wire := by
  cases hs with
  | printf text => exact lines_printf hb64 h text
  | queue op hop => exact lines_run h hop
  | disconnect => exact lines_disconnect h
  | linkUp => exact ⟨fun lane x hx => (by cases hx), h.raw⟩
  | socket writesLeft => exact ⟨h.lanes, h.raw⟩
  | replies dccReply a2r => exact h

/-- **Whatever `irc_printf` is given, and whatever happens to the link, what waits and what goes
out are lines, one each.** -/
theorem Reach.one_line (hb64 : ∀ x, ∀ c ∈ P.b64Encode x, c ∈ b64Chars) {s₀ s : Sender}
    (h : Reach P s₀ s) (hstart : Lines s₀.wire) : Lines s.wire := by
  induction h with
  | start => exact hstart
  | step _ hs ih => exact hs.lines hb64 ih

end Primitives

/-! ### A sealed reply -/

def b64Char (n : Nat) : UInt8 := b64Chars.getD (n % 64) (byte '=')

/-- Base64, for runs on concrete inputs. -/
def base64 : Str → Str
  | a :: b :: c :: rest =>
      let n := a.toNat * 65536 + b.toNat * 256 + c.toNat
      b64Char (n / 262144) :: b64Char (n / 4096) :: b64Char (n / 64) :: b64Char n :: base64 rest
  | [a, b] =>
      let n := a.toNat * 65536 + b.toNat * 256
      [b64Char (n / 262144), b64Char (n / 4096), b64Char (n / 64), byte '=']
  | [a] =>
      let n := a.toNat * 65536
      [b64Char (n / 262144), b64Char (n / 4096), byte '=', byte '=']
  | [] => []

example : base64 (str "light w") = str "bGlnaHQgdw==" := by decide

/-- What base64 writes is of its alphabet. -/
theorem mem_base64 (x : Str) : ∀ c ∈ base64 x, c ∈ b64Chars := by
  have hchar (n : Nat) : b64Char n ∈ b64Chars := by
    have hlt : n % 64 < b64Chars.length := lt_trans (Nat.mod_lt n (by decide)) (by decide)
    rw [b64Char, List.getD_eq_getElem?_getD, List.getElem?_eq_getElem hlt, Option.getD_some]
    exact List.getElem_mem hlt
  have hpad : byte '=' ∈ b64Chars := by decide
  induction x using base64.induct with
  | case1 a b c rest ih => simpa [base64, hchar] using ih
  | case2 a b => simp [base64, hchar, hpad]
  | case3 a => simp [base64, hchar, hpad]
  | case4 => simp [base64]

/-- A reply is sealed, and waits. -/
def asked : Sender where
  wire := { q := { hold := 1 } }
  a2r := { active := true, nick := str "alice" }

theorem one_line_asked : Lines (printf { Primitives.clear with b64Encode := base64 } asked
    (str "PRIVMSG alice :hello" ++ crlf)).2.wire :=
  Reach.one_line mem_base64 (.step .start (.printf _)) ⟨fun lane x hx => (by cases hx),
    fun x hx => (by cases hx)⟩

end IrcBot.Sendq
