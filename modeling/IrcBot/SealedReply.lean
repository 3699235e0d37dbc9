/-
# Sealed replies, from end to end (`irc_client.rs`, `bot_auth.rs`)

While a ~A2S command runs, `a2r_seal_reply` cuts and seals its replies; `bot-auth reply` opens the
frames that arrive and joins them.

* `sealedReplies_roundTrip` — frames that first arrive in order come out as the texts, one per line.
* `not_marked` — a reply that loses its first frame comes out cut, and unmarked.
* `unmarked_iff` — which losses leave every unmarked line a whole reply.
-/
import IrcBot.CmdReply

namespace IrcBot.SealedReply

open Cstr BotAuth Sendq Lib.Delivery Lib.Utf8

/-! ### One command -/

/-- All the frames of the replies, in base64. -/
def framesOf (replies : List Reply) : List Str := replies.flatMap (·.frames)

/-- The context that `a2_dispatch` sets, and what `bot-auth reply` is given for the same command. -/
structure SameCommand (s : Sender) (rkfile : Option Str) (bot me : Str) : Prop where
  seq : s.a2r.seq = 0
  key : s.a2r.key.length = 32
  aad : ∃ botnick,
    Envelope.a2Context (a2NickMax * 2 + 16) IrcBot.a2rLabel botnick s.a2r.nick none =
      some s.a2r.aad ∧
      botnick.map lower = bot.map lower
  nick : s.a2r.nick.map lower = me.map lower
  file : rkfile = some (b64enc s.a2r.key ++ [10])

/-- What a reply is made of: characters, and no CR, LF or NUL. -/
structure Fit (text : Str) : Prop where
  chars : Text text
  clean : ∀ c ∈ text, isBad c = false

theorem Fit.notMem_zero {text : Str} (h : Fit text) : (0 : UInt8) ∉ text := fun hmem =>
  absurd (h.clean 0 hmem) (by decide)

/-- A nick that the bot builds a context from has a length. -/
theorem length_of_lcCopy {nick x : Str} (h : Envelope.lcCopy nick a2NickMax = some x) :
    0 < nick.length ∧ nick.length < 64 := by
  unfold Envelope.lcCopy at h
  split at h
  · cases h
  · rename_i hok
    simp only [Bool.or_eq_true, List.isEmpty_iff, decide_eq_true_eq, not_or, not_le] at hok
    exact ⟨List.length_pos_of_ne_nil hok.1, hok.2⟩

/-- Both sides bind the frames to the same. -/
theorem SameCommand.context {s : Sender} {rkfile : Option Str} {bot me : Str}
    (h : SameCommand s rkfile bot me) :
    context 160 BotAuth.a2rLabel bot me none = some s.a2r.aad := by
  obtain ⟨botnick, haad, hbot⟩ := h.aad
  have hlen := haad
  simp only [Envelope.a2Context, Option.bind_eq_bind, Option.bind_eq_some_iff] at hlen
  obtain ⟨b, hb, u, hu, -⟩ := hlen
  obtain ⟨hb₁, hb₂⟩ := length_of_lcCopy hb
  obtain ⟨hu₁, hu₂⟩ := length_of_lcCopy hu
  have hblen : botnick.length = bot.length := by simpa using congrArg List.length hbot
  have hmlen : s.a2r.nick.length = me.length := by simpa using congrArg List.length h.nick
  rw [SealedCommand.a2Context_eq hbot h.nick (by omega) (by omega) (by decide)] at haad
  rw [SealedCommand.context_eq (by omega) (by omega) (by decide)]
  exact haad

/-- The reply key file is read back. -/
theorem readFirstLine_key {key : Str} (hkey : key.length = 32) :
    readFirstLine (some (b64enc key ++ [10])) 2048 = some (b64enc key) := by
  have hlen : (b64enc key).length = 44 := by rw [length_b64enc, hkey]
  have hne : b64enc key ≠ [] := List.ne_nil_of_length_pos (by omega)
  have hbreak : (10 : UInt8) ∉ b64enc key := fun hmem => by
    have := (clean_b64enc key 10 hmem).1
    revert this
    decide
  have hchunk : (b64enc key ++ [10]).take (chunkLen 2048 (b64enc key ++ [10])) =
      b64enc key ++ [10] := by
    have hline : fgetsChunks (b64enc key ++ 10 :: []) 2048 = _ :=
      fgetsChunks_line hbreak (by omega) []
    rw [fgetsChunks_cons (by decide) (by simp)] at hline
    exact (List.cons.inj hline).1
  unfold readFirstLine
  dsimp only
  rw [Option.map_some, hchunk, List.takeWhile_append_of_pos]
  · simp [hne]
  · exact forall_b64enc (by decide) (by decide) key

/-- What is read under the key and the nicks of the command. -/
theorem cmdReply_eq {P : Primitives} {s : Sender} {rkfile : Option Str} {bot me : Str}
    (h : SameCommand s rkfile bot me) (stdin : Str) :
    cmdReply P rkfile bot me stdin =
      let j := ((fgetsChunks stdin 2048).foldl (readReply P s.a2r.key s.a2r.aad) {}).finish
      .ok ⟨if 0 < j.bad then 2 else 0, j.out, j.err⟩ := by
  have hne : s.a2r.key ≠ [] := List.ne_nil_of_length_pos (by rw [h.key]; decide)
  have hkey : (b64dec (b64enc s.a2r.key) 32).filter (·.length = 32) = some s.a2r.key := by
    rw [b64dec_b64enc hne h.key.le]
    simp [h.key]
  unfold cmdReply
  rw [h.file, readFirstLine_key h.key, h.context]
  simp only [hkey]
  rfl

/-! ### A reply of two frames -/

/-- Sealing that leaves everything in clear, in frames of the right form. -/
def inClear : Primitives := { Primitives.clear with b64Encode := b64enc }

theorem inClear_seals : Seals inClear where
  toOpens := Primitives.clear_opens.congr rfl rfl
  drawn_length h := by
    rw [← Option.some.inj h]
    exact List.length_replicate
  b64 _ := rfl

/-- A command runs, and its replies wait. -/
def asker : Sender where
  wire := { q := { hold := 1 } }
  a2r := {
    active := true
    key := List.replicate 32 7
    aad := SealedCommand.aadOf IrcBot.a2rLabel (str "bot") (str "alice")
    nick := str "alice" }

def keyFile : Option Str := some (b64enc (List.replicate 32 7) ++ [10])

theorem sameCommand_asker : SameCommand asker keyFile (str "Bot") (str "Alice") where
  seq := rfl
  key := rfl
  aad := ⟨str "bot", by decide, by decide⟩
  nick := by decide
  file := rfl

def clearFrame (pt : Str) : Str :=
  b64enc (List.replicate 12 0 ++ pt ++ List.replicate 16 0)

/-- One byte more than a frame takes. -/
def longReply : Reply where
  verb := str "PRIVMSG"
  text := List.replicate 241 (byte 'x')
  frames := [clearFrame (str "0:1:" ++ List.replicate 240 (byte 'x')), clearFrame (str "1:0:x")]

theorem emits_longReply : Emits inClear asker [longReply] := by
  have hframes : longReply.frames =
      sealFrames inClear (str "PRIVMSG") (longReply.text.length + 1) asker longReply.text := by
    decide +kernel
  have htaken : (a2rSealReply inClear asker (replyLine (str "PRIVMSG") asker.a2r.nick
      longReply.text)).any (fun r => decide (0 ≤ r.1 ∧ r.2.a2r.seq < 2 ^ 64)) = true := by
    decide +kernel
  obtain ⟨⟨n, s'⟩, hr, hok⟩ := (Option.any_eq_true _ _).mp htaken
  obtain ⟨hn, hseq⟩ := of_decide_eq_true hok
  have hemits := Emits.reply (.inl rfl) hr hn hseq (.done s')
  rw [← hframes] at hemits
  exact hemits

theorem fit_longReply : Fit longReply.text where
  chars := text_of_ascii (forall_of_all (by decide))
  clean := forall_of_all (by decide)

/-- The lines that the asker's client logs. -/
def logOf (frames : List Str) : Str :=
  frames.flatMap fun b64 => str ":bot!b@host PRIVMSG alice :" ++ marker ++ b64 ++ [10]

theorem arrives_logOf {frames : List Str} (h : ∀ b64 ∈ frames, b64 ∈ longReply.frames) :
    Arrives frames (fgetsChunks (logOf frames) 2048) := by
  have hall : ∀ b64 ∈ longReply.frames,
      (b64.all fun c => decide (c ≠ 0 ∧ c ≠ 10)) = true ∧ b64.length ≤ 1024 := by
    decide +kernel
  refine arrives_log (forall_of_all (by decide)) fun b64 hb64 => ?_
  obtain ⟨hclean, hlen⟩ := hall b64 (h b64 hb64)
  exact ⟨forall_of_all hclean, by rw [show (str ":bot!b@host PRIVMSG alice :").length = 27 from rfl]; omega⟩

/-! ### Every frame arrives -/

/-- How a reply is cut: into the texts of its frames, each short, and each of whole characters. -/
def CutWell (P : Primitives) (ctx : A2rCtx) (r : Reply) : Prop :=
  ∃ n ps, Sealed P ctx.key ctx.aad n ps r.frames ∧ (ps.map (·.1)).flatten = r.text ∧
    ∀ p ∈ ps, p.1.length ≤ a2rTextMax ∧ Text p.1

section Primitives

variable {P : Primitives} {s : Sender} {replies : List Reply}

theorem cutWell_of_mem (hemits : Emits P s replies) (htexts : ∀ r ∈ replies, Fit r.text) :
    ∀ r ∈ replies, CutWell P s.a2r r := by
  intro r hr
  obtain ⟨n, hsealed⟩ := hemits.sealed_of_mem r hr
  exact ⟨n, pieces r.text, hsealed, flatten_pieces r.text,
    fun p hp => ⟨piece_le r.text p hp, text_of_mem_pieces (htexts r hr).chars p hp⟩⟩

/-- The pieces of the replies, as one stream. -/
def piecesOf (replies : List Reply) : List (Str × Bool) :=
  (replies.map (·.text)).flatMap pieces

theorem sealed_piecesOf (hemits : Emits P s replies) (hseq : s.a2r.seq = 0) :
    Sealed P s.a2r.key s.a2r.aad 0 (piecesOf replies) (framesOf replies) := by
  have hsealed := hemits.sealed
  rw [hseq] at hsealed
  rw [piecesOf, List.flatMap_map]
  exact hsealed

theorem length_piecesOf_lt (hemits : Emits P s replies) (hseq : s.a2r.seq = 0) :
    (piecesOf replies).length < 2 ^ 64 := by
  have hlt := hemits.seq_lt (by rw [hseq]; decide)
  have hlen := (sealed_piecesOf hemits hseq).length_eq
  rw [hseq, Nat.zero_add] at hlt
  rw [← hlen]
  exact hlt

theorem notMem_zero_piecesOf (h : ∀ r ∈ replies, (0 : UInt8) ∉ r.text) :
    ∀ p ∈ piecesOf replies, (0 : UInt8) ∉ p.1 := by
  intro p hp hzero
  obtain ⟨t, ht, hp⟩ := List.mem_flatMap.mp hp
  obtain ⟨r, hr, rfl⟩ := List.mem_map.mp ht
  refine h r hr ?_
  rw [← flatten_pieces r.text]
  exact List.mem_flatten.mpr ⟨p.1, List.mem_map_of_mem hp, hzero⟩

/-- No frame ends where its line goes on. -/
theorem endsFrame_of_mem {key aad : Str} {n : Nat} {ps : List (Str × Bool)} {frames : List Str}
    (hP : Seals P) (h : Sealed P key aad n ps frames) :
    ∀ b64 ∈ frames, ∀ c ∈ b64, endsFrame c = false := by
  induction h with
  | nil n => simp
  | cons _ _ ih =>
      intro b64 hb64
      rcases List.mem_cons.mp hb64 with rfl | hb64
      · rw [hP.b64]
        exact forall_b64enc (by decide) (by decide) _
      · exact ih b64 hb64

/-- **The round trip**: every piece is short and ends where a character does, the loop ends, and
where the frames first arrive in order, however often they come again, the texts are printed, one
per line. -/
theorem sealedReplies_roundTrip (hP : Seals P) (hemits : Emits P s replies) {rkfile : Option Str}
    {bot me : Str} (hsame : SameCommand s rkfile bot me) (htexts : ∀ r ∈ replies, Fit r.text)
    (hlen : ∀ r ∈ replies, r.text.length ≤ 8191) {order : List Nat}
    (horder : InOrder (framesOf replies).length 0 order) {stdin : Str}
    (harrives : Arrives (order.map fun k => (framesOf replies).getD k []) (fgetsChunks stdin 2048)) :
    (∀ r ∈ replies, CutWell P s.a2r r) ∧
      (∀ verb (s' : Sender) text fuel, text.length < fuel →
        sealLoop P verb fuel s' text = sealLoop P verb (text.length + 1) s' text) ∧
      ∃ o, cmdReply P rkfile bot me stdin = .ok o ∧ o.status = 0 ∧ o.err = [] ∧
        o.stdout = replies.flatMap fun r => r.text.map shown ++ str "\n" := by
  refine ⟨cutWell_of_mem hemits htexts, fun verb s' text fuel => sealLoop_fuel verb s', ?_⟩
  have hsealed := sealed_piecesOf hemits hsame.seq
  have hcount := length_piecesOf_lt hemits hsame.seq
  have hzero := notMem_zero_piecesOf fun r hr => (htexts r hr).notMem_zero
  have hframes : ∀ b64 ∈ order.map fun k => (framesOf replies).getD k [],
      ∀ c ∈ b64, endsFrame c = false := by
    intro b64 hb64
    obtain ⟨k, -, rfl⟩ := List.mem_map.mp hb64
    rw [List.getD_eq_getElem?_getD]
    cases hget : (framesOf replies)[k]? with
    | none => simp
    | some b64 => exact endsFrame_of_mem hP hsealed b64 (List.mem_of_getElem? hget)
  have hread := @foldl_readReply P s.a2r.key s.a2r.aad _ _ harrives hframes {}
  have hkept := foldl_kept hP (fun _ => true) hsealed hzero (by omega) {}
  rw [kept_of_all] at hkept
  rw [foldl_inOrder hP hsealed hzero hcount horder, hkept] at hread
  have hshort : ∀ t ∈ replies.map (·.text), t.length ≤ joinedMax := by
    intro t ht
    obtain ⟨r, hr, rfl⟩ := List.mem_map.mp ht
    exact hlen r hr
  obtain ⟨hout, hjoined, hbad, herr⟩ := Joiner.stands_start.run_all (replies.map (·.text)) hshort
    rfl (by rw [Nat.zero_add]; exact hcount)
  rw [piecesOf] at hread
  refine ⟨_, cmdReply_eq hsame stdin, ?_⟩
  rw [hread, Joiner.finish, hjoined, if_pos List.isEmpty_nil, hbad]
  refine ⟨rfl, herr, ?_⟩
  rw [Replies.stdout, hout, List.nil_append, List.map_map, List.flatMap_map]
  rfl

/-- Its first frame comes again. -/
theorem roundTrip_longReply : ∃ o,
    cmdReply inClear keyFile (str "Bot") (str "Alice")
      (logOf ([0, 1, 0].map fun k => longReply.frames.getD k [])) = .ok o ∧
    o.stdout = List.replicate 241 (byte 'x') ++ str "\n" := by
  have hagain : ∀ b64 ∈ [0, 1, 0].map fun k => longReply.frames.getD k [],
      b64 ∈ longReply.frames := by decide +kernel
  have htrip := sealedReplies_roundTrip inClear_seals emits_longReply sameCommand_asker
    (by simpa using fit_longReply) (by decide +kernel)
    (.next (by decide) (.next (by decide) (.again (by decide) .done)))
    (arrives_logOf hagain)
  obtain ⟨-, -, o, ho, -, -, hout⟩ := htrip
  refine ⟨o, ho, hout.trans (by decide +kernel)⟩

/-! ### Some frames are lost -/

/-- Every line without the mark is a whole reply, as it is shown. -/
def UnmarkedWhole (replies : List Reply) (o : Replies) : Prop :=
  ∀ l ∈ o.out, l.marked = false → ∃ r ∈ replies, l.text = r.text.map shown

/-- The tail of a reply, of which the rest is lost. -/
theorem cmdReply_tail : cmdReply inClear keyFile (str "Bot") (str "Alice")
    (logOf [clearFrame (str "1:0:x")]) = .ok ⟨0, [⟨str "x", false⟩], []⟩ := by
  decide

/-- **A reply that loses its first frame** comes out without its front, and without a mark. -/
theorem not_marked : ¬ ∀ (P : Primitives) (s : Sender) (replies : List Reply) (rkfile : Option Str)
    (bot me : Str) (arrives : Nat → Bool) (stdin : Str) (o : Replies),
    Seals P → Emits P s replies → SameCommand s rkfile bot me → (∀ r ∈ replies, Fit r.text) →
    Arrives (kept arrives 0 (framesOf replies)) (fgetsChunks stdin 2048) →
    cmdReply P rkfile bot me stdin = .ok o → UnmarkedWhole replies o := by
  intro h
  have hwhole := h inClear asker [longReply] keyFile (str "Bot") (str "Alice") (· ≠ 0)
    (logOf [clearFrame (str "1:0:x")]) _ inClear_seals emits_longReply sameCommand_asker
    (by simpa using fit_longReply) (arrives_logOf (by decide)) cmdReply_tail
  obtain ⟨r, hr, htext⟩ := hwhole ⟨str "x", false⟩ (by simp) rfl
  obtain rfl := List.mem_singleton.mp hr
  exact absurd (congrArg List.length htext) (by decide +kernel)

/-- The losses spare a reply: its last frame is lost; or all its frames arrive, and it fits the
buffer; or what is left after the last loss happens to read as one of the replies. -/
def Spared (arrives : Nat → Bool) (replies before : List Reply) (r : Reply) : Prop :=
  arrives ((framesOf before).length + r.frames.length - 1) = true →
    ((∀ i < r.frames.length, arrives ((framesOf before).length + i) = true) ∧
        r.text.length ≤ 8191) ∨
      ∃ r' ∈ replies,
        r'.text.map shown = ((leftOf arrives (framesOf before).length r.text).map shown).take 8191

/-- The numbers of the frames are those of the pieces. -/
theorem length_framesOf {rs : List Reply} (h : ∀ r ∈ rs, r.frames.length = (pieces r.text).length) :
    (framesOf rs).length = ((rs.map (·.text)).flatMap pieces).length := by
  induction rs with
  | nil => rfl
  | cons r rs ih =>
      rw [framesOf, List.flatMap_cons, List.length_append, h r (by simp), List.map_cons,
        List.flatMap_cons, List.length_append, ← ih fun u hu => h u (List.mem_cons_of_mem r hu)]
      rfl

/-- What is spared comes out whole, and nothing else does. -/
theorem spared_iff {arrives : Nat → Bool} {before : List Reply} {r : Reply} (hr : r ∈ replies)
    (hlen : r.frames.length = (pieces r.text).length) :
    Spared arrives replies before r ↔
      (arrives ((framesOf before).length + (pieces r.text).length - 1) = true →
        ∃ r' ∈ replies, ((leftOf arrives (framesOf before).length r.text).map shown).take joinedMax =
          r'.text.map shown) := by
  unfold Spared
  rw [hlen]
  constructor
  · intro h harr
    rcases h harr with ⟨hall, hshort⟩ | ⟨r', hr', heq⟩
    · refine ⟨r, hr, ?_⟩
      rw [leftOf_of_all hall]
      exact List.take_of_length_le (by rw [List.length_map]; exact hshort)
    · exact ⟨r', hr', heq.symm⟩
  · intro h harr
    obtain ⟨r', hr', heq⟩ := h harr
    exact .inr ⟨r', hr', heq.symm⟩

/-- **Unmarked lines**: each is a whole reply if and only if the losses spare every reply. -/
theorem unmarked_iff (hP : Seals P) (hemits : Emits P s replies) {rkfile : Option Str}
    {bot me : Str} (hsame : SameCommand s rkfile bot me)
    (htexts : ∀ r ∈ replies, (0 : UInt8) ∉ r.text) (arrives : Nat → Bool) {stdin : Str}
    (harrives : Arrives (kept arrives 0 (framesOf replies)) (fgetsChunks stdin 2048)) :
    ∃ o, cmdReply P rkfile bot me stdin = .ok o ∧ o.status = 0 ∧ o.err = [] ∧
      (UnmarkedWhole replies o ↔
        ∀ before r after, replies = before ++ r :: after → Spared arrives replies before r) := by
  have hsealed := sealed_piecesOf hemits hsame.seq
  have hcount := length_piecesOf_lt hemits hsame.seq
  have hzero := notMem_zero_piecesOf htexts
  have hlens : ∀ r ∈ replies, r.frames.length = (pieces r.text).length := fun r hr =>
    (hemits.sealed_of_mem r hr).elim fun _ h => h.length_eq
  have hread := @foldl_readReply P s.a2r.key s.a2r.aad _ _ harrives
    (fun b64 hb64 => endsFrame_of_mem hP hsealed b64 (mem_of_mem_kept arrives hb64)) {}
  rw [foldl_kept hP arrives hsealed hzero (by omega) {}, piecesOf] at hread
  obtain ⟨hrun, hbad, herr⟩ := Joiner.stands_start.unmarked_run arrives
    (fun x => ∃ r ∈ replies, x = r.text.map shown) (replies.map (·.text))
    (by rw [Nat.zero_add]; exact hcount)
  refine ⟨_, cmdReply_eq hsame stdin, ?_⟩
  rw [hread]
  dsimp only
  rw [Joiner.finish_bad, Joiner.finish_err, hbad]
  refine ⟨rfl, herr, ?_⟩
  refine ((Joiner.finish_unmarked _ fun x => ∃ r ∈ replies, x = r.text.map shown).trans hrun).trans ?_
  simp only [Nat.zero_add]
  constructor
  · rintro ⟨-, hall⟩ before r after hsplit
    have hr : r ∈ replies := by simp [hsplit]
    rw [spared_iff hr (hlens r hr), length_framesOf fun u hu => hlens u (by simp [hsplit, hu])]
    exact hall (before.map (·.text)) r.text (after.map (·.text)) (by simp [hsplit])
  · intro hall
    refine ⟨by simp, fun before t after hsplit => ?_⟩
    obtain ⟨before, rest, hreplies, rfl, hrest⟩ := List.map_eq_append_iff.mp hsplit
    obtain ⟨r, after, rfl, rfl, rfl⟩ := List.map_eq_cons_iff.mp hrest
    have hr : r ∈ replies := by simp [hreplies]
    have hone := (spared_iff hr (hlens r hr)).mp (hall before r after hreplies)
    rwa [length_framesOf fun u hu => hlens u (by simp [hreplies, hu])] at hone

end Primitives

/-- Its last frame is lost. -/
theorem unmarked_longReply : ∃ o,
    cmdReply inClear keyFile (str "Bot") (str "Alice")
      (logOf (kept (· ≠ 1) 0 (framesOf [longReply]))) = .ok o ∧ UnmarkedWhole [longReply] o := by
  obtain ⟨o, ho, -, -, hiff⟩ := unmarked_iff inClear_seals emits_longReply sameCommand_asker
    (by simpa using fit_longReply.notMem_zero) (· ≠ 1)
    (arrives_logOf fun b64 hb64 => by simpa [framesOf] using mem_of_mem_kept _ hb64)
  refine ⟨o, ho, hiff.mpr ?_⟩
  rintro before r after hsplit
  obtain ⟨rfl, rfl⟩ : before = [] ∧ r = longReply := by
    cases before with
    | nil => exact ⟨rfl, ((List.cons.inj hsplit).1).symm⟩
    | cons u before => exact absurd (List.cons.inj hsplit).2 (by simp)
  exact fun hlast => absurd hlast (by decide)

end IrcBot.SealedReply
