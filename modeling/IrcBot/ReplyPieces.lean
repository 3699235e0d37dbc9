/-
# The pieces of a sealed reply (`irc_client.rs`)

`a2r_seal_reply` cuts a reply where a character ends, and seals each piece with its number and with
whether more of the reply follows.

* `flatten_pieces`, `piece_le`, `text_of_mem_pieces` — the pieces are the reply, each is short, and
  none ends within a character.
* `sealLoop_fuel` — the loop ends of its own.
* `a2rSealReply_sends` — a reply hands on one line after the other, a piece in each.
-/
import IrcBot.Lib.Utf8
import IrcBot.SendLine

namespace IrcBot.Sendq

open Cstr Lib.Utf8

/-! ### Where a text is cut -/

/-- A byte that the cutter backs off from is one that goes on with a character. -/
theorem tail_iff (b : UInt8) : b &&& 0xC0 = 0x80 ↔ Tail b := by
  have hall : ∀ n : Fin 256, UInt8.ofNat n.val &&& 0xC0 = 0x80 ↔ Tail (UInt8.ofNat n.val) := by
    decide +kernel
  simpa [UInt8.ofNat_toNat] using hall ⟨b.toNat, b.toNat_lt⟩

theorem pieceEnd_le (text : Str) (n : Nat) : pieceEnd text n ≤ n := by
  induction n using Nat.strong_induction_on with
  | _ n ih =>
      match n with
      | 0 => exact le_rfl
      | 1 => exact le_rfl
      | n + 2 =>
          unfold pieceEnd
          split
          · exact (ih (n + 1) (by omega)).trans (by omega)
          · exact le_rfl

/-- It does not back off further than to where a character begins. -/
theorem le_pieceEnd {text : Str} {m n : Nat} (hm : 0 < m) (hmn : m ≤ n)
    (hstart : ∀ b ∈ text[m]?, ¬ Tail b) : m ≤ pieceEnd text n := by
  induction n using Nat.strong_induction_on with
  | _ n ih =>
      match n, hmn with
      | 0, hmn => omega
      | 1, hmn => exact hmn
      | n + 2, hmn =>
          unfold pieceEnd
          split
          · rename_i hback
            refine ih (n + 1) (by omega) (Nat.le_of_lt_succ (lt_of_le_of_ne hmn ?_))
            rintro rfl
            rw [tail_iff, List.getD_eq_getElem?_getD] at hback
            cases hget : text[n + 2]? with
            | none =>
                rw [hget] at hback
                exact absurd hback (by decide)
            | some b =>
                rw [hget] at hback
                exact hstart b hget hback
          · exact hmn

/-- Where it backs off no further, a character begins, or nothing is left to take. -/
theorem start_pieceEnd (text : Str) {n : Nat} (h : 1 < pieceEnd text n) :
    ∀ b ∈ text[pieceEnd text n]?, ¬ Tail b := by
  induction n using Nat.strong_induction_on with
  | _ n ih =>
      match n, h with
      | 0, h => exact absurd h (Nat.not_lt_zero 1)
      | 1, h => exact absurd h (Nat.lt_irrefl 1)
      | n + 2, h =>
          unfold pieceEnd at h ⊢
          split
          · rename_i hback
            rw [if_pos hback] at h
            exact ih (n + 1) (by omega) h
          · rename_i hback
            intro b hb htail
            rw [tail_iff, List.getD_eq_getElem?_getD, hb] at hback
            exact hback htail

theorem pieceLen_le (text : Str) : pieceLen text ≤ a2rTextMax ∧ pieceLen text ≤ text.length := by
  unfold pieceLen
  split
  · have := pieceEnd_le text a2rTextMax
    omega
  · omega

theorem pieceLen_pos {text : Str} (h : text ≠ []) : 0 < pieceLen text := by
  have := List.length_pos_of_ne_nil h
  unfold pieceLen
  split
  · -- it stops at the first byte at the latest
    have hend (n : Nat) : 0 < n → 0 < pieceEnd text n := by
      induction n using Nat.strong_induction_on with
      | _ n ih =>
          intro hn
          match n with
          | 1 => exact Nat.one_pos
          | n + 2 =>
              unfold pieceEnd
              split
              · exact ih (n + 1) (by omega) (by omega)
              · omega
    exact hend a2rTextMax (by decide)
  · exact this

/-- A text is cut where a character begins. -/
theorem Text.cut_pieceLen {text : Str} (h : Text text) :
    Text (text.take (pieceLen text)) ∧ Text (text.drop (pieceLen text)) := by
  refine h.cut fun b hb => ?_
  unfold pieceLen at hb
  split at hb
  · obtain ⟨m, hm, hnear, hstart⟩ := h.exists_start a2rTextMax
    have hmax : a2rTextMax = 240 := rfl
    have hend : m ≤ pieceEnd text a2rTextMax := le_pieceEnd (by omega) hm hstart
    exact start_pieceEnd text (by omega) b hb
  · rw [List.getElem?_eq_none (le_refl text.length)] at hb
    cases hb

/-! ### The pieces -/

/-- The cuts that the loop makes, and whether more follows each. -/
def cutLoop : Nat → Str → List (Str × Bool)
  | 0, _ => []
  | fuel + 1, text =>
      let cut := pieceLen text
      if cut < text.length then (text.take cut, true) :: cutLoop fuel (text.drop cut)
      else [(text, false)]

/-- The pieces of a text. -/
def pieces (text : Str) : List (Str × Bool) := cutLoop (text.length + 1) text

theorem length_drop_pieceLen {text : Str} (h : pieceLen text < text.length) :
    (text.drop (pieceLen text)).length < text.length := by
  have hne : text ≠ [] := by
    rintro rfl
    exact absurd h (by simp)
  have := pieceLen_pos hne
  rw [List.length_drop]
  omega

/-- Any fuel that is enough makes the same cuts. -/
theorem cutLoop_eq {fuel : Nat} {text : Str} (h : text.length < fuel) :
    cutLoop fuel text = pieces text := by
  induction fuel using Nat.strong_induction_on generalizing text with
  | _ fuel ih =>
      obtain ⟨n, rfl⟩ : ∃ n, fuel = n + 1 := ⟨fuel - 1, by omega⟩
      unfold pieces cutLoop
      dsimp only
      split
      · rename_i hcut
        have hdrop := length_drop_pieceLen hcut
        rw [ih n (by omega) (by omega), ih text.length (by omega) hdrop]
      · rfl

theorem pieces_eq (text : Str) : pieces text = if pieceLen text < text.length
    then (text.take (pieceLen text), true) :: pieces (text.drop (pieceLen text))
    else [(text, false)] := by
  conv_lhs => unfold pieces cutLoop
  dsimp only
  split
  · rw [cutLoop_eq (length_drop_pieceLen ‹_›)]
  · rfl

/-- What holds of the last piece, and is kept where a piece is put before others, holds of the
pieces of every text. -/
theorem pieces_induction {motive : Str → List (Str × Bool) → Prop}
    (last : ∀ text, text.length ≤ a2rTextMax → motive text [(text, false)])
    (more : ∀ text, pieceLen text < text.length →
      motive (text.drop (pieceLen text)) (pieces (text.drop (pieceLen text))) →
      motive text ((text.take (pieceLen text), true) :: pieces (text.drop (pieceLen text))))
    (text : Str) : motive text (pieces text) := by
  induction hlen : text.length using Nat.strong_induction_on generalizing text with
  | _ len ih =>
      rw [pieces_eq]
      split
      · rename_i hcut
        exact more text hcut (ih _ (by rw [← hlen]; exact length_drop_pieceLen hcut) _ rfl)
      · have := (pieceLen_le text).1
        exact last text (by omega)

/-- The pieces, one after the other, are the text. -/
theorem flatten_pieces (text : Str) : ((pieces text).map (·.1)).flatten = text := by
  induction text using pieces_induction with
  | last text _ => simp
  | more text _ ih => rw [List.map_cons, List.flatten_cons, ih, List.take_append_drop]

/-- No piece is too long for its frame. -/
theorem piece_le (text : Str) : ∀ p ∈ pieces text, p.1.length ≤ a2rTextMax := by
  induction text using pieces_induction with
  | last text h => simpa using h
  | more text _ ih =>
      intro p hp
      rcases List.mem_cons.mp hp with rfl | hp
      · exact (List.length_take_le _ _).trans (pieceLen_le text).1
      · exact ih p hp

/-- No piece ends within a character. -/
theorem text_of_mem_pieces {text : Str} (h : Text text) : ∀ p ∈ pieces text, Text p.1 := by
  induction text using pieces_induction with
  | last text _ => simpa using h
  | more text _ ih =>
      obtain ⟨hfront, hback⟩ := Text.cut_pieceLen h
      intro p hp
      rcases List.mem_cons.mp hp with rfl | hp
      · exact hfront
      · exact ih hback p hp

/-! ### The frames -/

/-- What is sealed of a piece. -/
def plaintext (seq : Nat) (more : Bool) (piece : Str) : Str :=
  decNat seq ++ str ":" ++ (if more then str "1" else str "0") ++ str ":" ++ piece

/-- The line that a frame leaves in. -/
def sealedLine (verb nick b64 : Str) : Str :=
  verb ++ str " " ++ nick ++ str " :~A2R " ++ b64 ++ crlf

/-- A piece was sent. -/
def counted (s : Sender) : Sender := { s with a2r := { s.a2r with seq := s.a2r.seq + 1 } }

/-- `send_line` is handed one line after the other, takes each, and each is counted. -/
inductive Sends : Sender → List Str → Sender → Prop
  | done (s : Sender) : Sends s [] s
  | next {s s' : Sender} {line : Str} {lines : List Str} (htaken : 0 ≤ (sendLine s line).1)
      (h : Sends (counted (sendLine s line).2) lines s') : Sends s (line :: lines) s'

section Primitives

variable (P : Primitives)

/-- Pieces sealed under one key and numbered from `n` on, in base64. -/
inductive Sealed (key aad : Str) : Nat → List (Str × Bool) → List Str → Prop
  | nil (n : Nat) : Sealed key aad n [] []
  | cons {n : Nat} {piece frame : Str} {more : Bool} {ps : List (Str × Bool)} {frames : List Str}
      (hseal : replySeal P key aad (plaintext n more piece) = some frame)
      (h : Sealed key aad (n + 1) ps frames) :
      Sealed key aad n ((piece, more) :: ps) (P.b64Encode frame :: frames)

/-- The frames of the loop, in base64: one for each line that it hands to `send_line`. -/
def sealFrames (verb : Str) : Nat → Sender → Str → List Str
  | 0, _, _ => []
  | fuel + 1, s, text =>
      match sealedPiece P s.a2r text with
      | none => []
      | some frame =>
          let out := sealedLine verb s.a2r.nick (P.b64Encode frame)
          if 640 ≤ out.length then []
          else
            let (r, s) := sendLine s out
            let text := text.drop (pieceLen text)
            P.b64Encode frame ::
              if r < 0 || text.isEmpty then [] else sealFrames verb fuel (counted s) text

variable {P}

theorem a2r_sendLine (s : Sender) (line : Str) : (sendLine s line).2.a2r = s.a2r := by
  unfold sendLine
  split
  · rfl
  · split
    · rfl
    · generalize enqueue s.wire line = r
      rfl

theorem replySeal_of_sealedPiece {ctx : A2rCtx} {text frame : Str}
    (h : sealedPiece P ctx text = some frame) :
    replySeal P ctx.key ctx.aad (plaintext ctx.seq (decide (pieceLen text < text.length))
      (text.take (pieceLen text))) = some frame := by
  unfold sealedPiece at h
  dsimp only at h
  generalize htag : (if pieceLen text < text.length then str "1" else str "0") = tag at h
  split at h
  · simpa [plaintext, htag] using h
  · cases h

theorem isEmpty_drop_pieceLen (text : Str) :
    (text.drop (pieceLen text)).isEmpty = !decide (pieceLen text < text.length) := by
  rw [Bool.eq_iff_iff]
  simp

/-- One turn of the loop. -/
theorem sealLoop_succ (verb : Str) (fuel : Nat) (s : Sender) (text : Str) :
    sealLoop P verb (fuel + 1) s text =
      match sealedPiece P s.a2r text with
      | none => (-1, s)
      | some frame =>
          let out := sealedLine verb s.a2r.nick (P.b64Encode frame)
          if 640 ≤ out.length then (-1, s)
          else
            let r := sendLine s out
            if r.1 < 0 then r
            else if pieceLen text < text.length then
              sealLoop P verb fuel (counted r.2) (text.drop (pieceLen text))
            else (r.1, counted r.2) := by
  rw [sealLoop]
  cases sealedPiece P s.a2r text with
  | none => rfl
  | some frame =>
      dsimp only [sealedLine, counted]
      rw [isEmpty_drop_pieceLen]
      by_cases hcut : pieceLen text < text.length
      · simp only [hcut, decide_true, Bool.not_true, Bool.false_eq_true, if_true, if_false]
      · simp only [hcut, decide_false, Bool.not_false, if_true, if_false]

/-- **The loop ends of its own**: fuel for every byte, and one turn more, is enough. -/
theorem sealLoop_fuel (verb : Str) {fuel : Nat} (s : Sender) {text : Str}
    (h : text.length < fuel) :
    sealLoop P verb fuel s text = sealLoop P verb (text.length + 1) s text := by
  induction fuel using Nat.strong_induction_on generalizing s text with
  | _ fuel ih =>
      obtain ⟨n, rfl⟩ : ∃ n, fuel = n + 1 := ⟨fuel - 1, by omega⟩
      rw [sealLoop_succ, sealLoop_succ]
      cases sealedPiece P s.a2r text with
      | none => rfl
      | some frame =>
          dsimp only
          by_cases hcut : pieceLen text < text.length
          · have hdrop := length_drop_pieceLen hcut
            simp only [if_pos hcut]
            rw [ih n (by omega) _ (by omega), ih text.length (by omega) _ hdrop]
          · simp only [if_neg hcut]

/-- One turn of the loop that does not fail: a piece is sealed, its line is taken, and the loop goes
on where more of the text is left. -/
theorem sealLoop_turn {verb : Str} {fuel : Nat} {s : Sender} {text : Str}
    (h : 0 ≤ (sealLoop P verb (fuel + 1) s text).1) :
    ∃ frame, sealedPiece P s.a2r text = some frame ∧
      let r := sendLine s (sealedLine verb s.a2r.nick (P.b64Encode frame))
      0 ≤ r.1 ∧
      sealLoop P verb (fuel + 1) s text = (if pieceLen text < text.length then
          sealLoop P verb fuel (counted r.2) (text.drop (pieceLen text))
        else (r.1, counted r.2)) ∧
      sealFrames P verb (fuel + 1) s text = P.b64Encode frame ::
        (if pieceLen text < text.length then
          sealFrames P verb fuel (counted r.2) (text.drop (pieceLen text))
        else []) := by
  rw [sealLoop_succ] at h ⊢
  rw [sealFrames]
  cases hframe : sealedPiece P s.a2r text with
  | none =>
      rw [hframe] at h
      exact absurd h (show ¬ (0 : Int) ≤ -1 by decide)
  | some frame =>
      rw [hframe] at h
      dsimp only at h ⊢
      split at h
      · exact absurd h (show ¬ (0 : Int) ≤ -1 by decide)
      · rename_i hshort
        split at h
        · omega
        · rename_i htaken
          refine ⟨frame, rfl, by omega, ?_, ?_⟩
          · rw [if_neg hshort, if_neg htaken]
          · rw [if_neg hshort, isEmpty_drop_pieceLen]
            by_cases hcut : pieceLen text < text.length
            · simp [hcut, htaken]
            · simp [hcut]

/-- **What is sent of a reply**, where nothing fails: its pieces, sealed and numbered on, a line for
each. -/
theorem sealLoop_sends {verb : Str} {fuel : Nat} {s : Sender} {text : Str}
    (hfuel : text.length < fuel) (h : 0 ≤ (sealLoop P verb fuel s text).1) :
    Sealed P s.a2r.key s.a2r.aad s.a2r.seq (pieces text) (sealFrames P verb fuel s text) ∧
      Sends s ((sealFrames P verb fuel s text).map (sealedLine verb s.a2r.nick))
        (sealLoop P verb fuel s text).2 ∧
      (sealLoop P verb fuel s text).2.a2r =
        { s.a2r with seq := s.a2r.seq + (pieces text).length } := by
  induction fuel using Nat.strong_induction_on generalizing s text with
  | _ fuel ih =>
      obtain ⟨n, rfl⟩ : ∃ n, fuel = n + 1 := ⟨fuel - 1, by omega⟩
      obtain ⟨frame, hframe, htaken, hloop, hframes⟩ := sealLoop_turn h
      have hseal := replySeal_of_sealedPiece hframe
      have hctx : (counted (sendLine s (sealedLine verb s.a2r.nick (P.b64Encode frame))).2).a2r =
          { s.a2r with seq := s.a2r.seq + 1 } := by rw [counted, a2r_sendLine]
      rw [pieces_eq, hframes]
      by_cases hcut : pieceLen text < text.length
      · rw [if_pos hcut] at hloop
        rw [hloop] at h ⊢
        rw [decide_eq_true hcut] at hseal
        obtain ⟨hrest, hsends, hend⟩ :=
          ih n (by omega) (by have := length_drop_pieceLen hcut; omega) h
        rw [hctx] at hrest hsends hend
        simp only [if_pos hcut, List.map_cons, List.length_cons]
        refine ⟨.cons hseal hrest, .next htaken hsends, ?_⟩
        rw [hend]
        dsimp only
        congr 1
        omega
      · rw [if_neg hcut] at hloop
        rw [hloop]
        rw [decide_eq_false hcut, List.take_of_length_le (by omega)] at hseal
        simp only [if_neg hcut, List.map_cons, List.map_nil, List.length_singleton]
        exact ⟨.cons hseal (.nil _), .next htaken (.done _), hctx⟩

theorem Sealed.length_eq {key aad : Str} {n : Nat} {ps : List (Str × Bool)} {frames : List Str}
    (h : Sealed P key aad n ps frames) : frames.length = ps.length := by
  induction h with
  | nil n => rfl
  | cons _ _ ih => rw [List.length_cons, List.length_cons, ih]

theorem Sealed.append {key aad : Str} {n : Nat} {ps qs : List (Str × Bool)} {frames more : List Str}
    (h : Sealed P key aad n ps frames) (hmore : Sealed P key aad (n + ps.length) qs more) :
    Sealed P key aad n (ps ++ qs) (frames ++ more) := by
  induction h with
  | nil n => exact hmore
  | cons hseal _ ih =>
      refine .cons hseal (ih ?_)
      rwa [List.length_cons, show ∀ a b : Nat, a + (b + 1) = a + 1 + b by omega] at hmore

end Primitives

/-! ### The replies to one command -/

/-- The line of a reply to the asker. -/
def replyLine (verb nick text : Str) : Str := verb ++ str " " ++ nick ++ str " :" ++ text ++ crlf

/-- A reply, and its frames in base64. -/
structure Reply where
  verb : Str
  text : Str
  frames : List Str

section Primitives

variable (P : Primitives)

/-- What one command replies: `a2r_seal_reply` takes each line, and every send succeeds. What else
is sent meanwhile leaves the context. The number is a `u64`, and its overflow is checked. -/
inductive Emits : Sender → List Reply → Prop
  | done (s : Sender) : Emits s []
  | other {s s' : Sender} {replies : List Reply} (ha2r : s'.a2r = s.a2r) (h : Emits s' replies) :
      Emits s replies
  | reply {s s' : Sender} {verb text : Str} {n : Int} {replies : List Reply}
      (hverb : verb = str "PRIVMSG" ∨ verb = str "NOTICE")
      (htaken : a2rSealReply P s (replyLine verb s.a2r.nick text) = some (n, s')) (hsent : 0 ≤ n)
      (hseq : s'.a2r.seq < 2 ^ 64) (h : Emits s' replies) :
      Emits s (⟨verb, text, sealFrames P verb (text.length + 1) s text⟩ :: replies)

variable {P}

theorem replyText_replyLine (verb nick text : Str) :
    replyText verb nick (replyLine verb nick text) = some text := by
  have hlen : (replyLine verb nick text).length = verb.length + nick.length + text.length + 5 := by
    simp only [replyLine, List.length_append]
    rw [show (str " ").length = 1 from rfl, show (str " :").length = 2 from rfl,
      show crlf.length = 2 from rfl]
    omega
  have hverb : (replyLine verb nick text).take (verb.length + 1) = verb ++ str " " := by
    simp only [replyLine, List.append_assoc]
    rw [← List.append_assoc]
    exact List.take_left' (by simp [str])
  have hdrop : (replyLine verb nick text).drop (verb.length + 1) =
      nick ++ (str " :" ++ (text ++ crlf)) := by
    simp only [replyLine, List.append_assoc]
    rw [← List.append_assoc]
    exact List.drop_left' (by simp [str])
  have hcolon : (replyLine verb nick text).drop (verb.length + 1 + nick.length) =
      str " :" ++ (text ++ crlf) := by
    rw [← List.drop_drop, hdrop, List.drop_left]
  have htext : ((replyLine verb nick text).take ((replyLine verb nick text).length - 2)).drop
      (verb.length + 1 + nick.length + 2) = text := by
    have hhead : (replyLine verb nick text).drop (verb.length + 1 + nick.length + 2) =
        text ++ crlf := by
      rw [← List.drop_drop, hcolon]
      rfl
    rw [List.drop_take, hhead, hlen]
    exact List.take_left' (by omega)
  unfold replyText
  dsimp only
  rw [if_neg, htext]
  simp only [Bool.or_eq_true, decide_eq_true_eq, not_or, not_lt, ne_eq, not_not]
  refine ⟨⟨⟨by omega, hverb⟩, ?_⟩, ?_⟩
  · rw [hdrop, List.take_left]
  · rw [hcolon]
    rfl

/-- A reply that is taken goes through the loop. -/
theorem a2rSealReply_replyLine {s : Sender} {verb text : Str} {r : Int × Sender}
    (hverb : verb = str "PRIVMSG" ∨ verb = str "NOTICE")
    (h : a2rSealReply P s (replyLine verb s.a2r.nick text) = some r) :
    sealLoop P verb (text.length + 1) s text = r := by
  have hline : replyLine verb s.a2r.nick text =
      verb ++ str " " ++ (s.a2r.nick ++ str " :" ++ text ++ crlf) := by simp [replyLine]
  unfold a2rSealReply at h
  dsimp only at h
  rcases hverb with rfl | rfl
  · have hprivmsg : str "PRIVMSG " <+: replyLine (str "PRIVMSG") s.a2r.nick text := by
      rw [hline]
      exact List.prefix_append _ _
    rw [if_pos hprivmsg, replyText_replyLine] at h
    dsimp only at h
    split at h
    · cases h
    · exact Option.some.inj h
  · have hprivmsg : ¬ str "PRIVMSG " <+: replyLine (str "NOTICE") s.a2r.nick text := by
      rw [hline]
      rintro ⟨rest, hrest⟩
      have hhead : byte 'P' = byte 'N' := (List.cons.inj hrest).1
      exact absurd hhead (by decide)
    have hnotice : str "NOTICE " <+: replyLine (str "NOTICE") s.a2r.nick text := by
      rw [hline]
      exact List.prefix_append _ _
    rw [if_neg hprivmsg, if_pos hnotice, replyText_replyLine] at h
    dsimp only at h
    split at h
    · cases h
    · exact Option.some.inj h

/-- **A reply that is taken, and sent**: a line for each piece, sealed and numbered on. -/
theorem a2rSealReply_sends {s s' : Sender} {verb text : Str} {n : Int}
    (hverb : verb = str "PRIVMSG" ∨ verb = str "NOTICE")
    (htaken : a2rSealReply P s (replyLine verb s.a2r.nick text) = some (n, s')) (hsent : 0 ≤ n) :
    Sealed P s.a2r.key s.a2r.aad s.a2r.seq (pieces text)
        (sealFrames P verb (text.length + 1) s text) ∧
      Sends s ((sealFrames P verb (text.length + 1) s text).map (sealedLine verb s.a2r.nick)) s' ∧
      s'.a2r = { s.a2r with seq := s.a2r.seq + (pieces text).length } := by
  have hloop := a2rSealReply_replyLine hverb htaken
  have hsends := sealLoop_sends (Nat.lt_succ_self text.length) (by rw [hloop]; exact hsent)
  rwa [hloop] at hsends

/-- What the replies leave in: all their pieces, numbered on from the first. -/
theorem Emits.sealed {s : Sender} {replies : List Reply} (h : Emits P s replies) :
    Sealed P s.a2r.key s.a2r.aad s.a2r.seq (replies.flatMap fun r => pieces r.text)
      (replies.flatMap (·.frames)) := by
  induction h with
  | done s => exact .nil _
  | other ha2r _ ih => rwa [← ha2r]
  | @reply s s' verb text n replies hverb htaken hsent _ _ ih =>
      obtain ⟨hsealed, -, hend⟩ := a2rSealReply_sends hverb htaken hsent
      rw [hend] at ih
      exact hsealed.append ih

/-- Each reply leaves in its own pieces. -/
theorem Emits.sealed_of_mem {s : Sender} {replies : List Reply} (h : Emits P s replies) :
    ∀ r ∈ replies, ∃ n, Sealed P s.a2r.key s.a2r.aad n (pieces r.text) r.frames := by
  induction h with
  | done s => simp
  | other ha2r _ ih => rwa [← ha2r]
  | @reply s s' verb text n replies hverb htaken hsent _ _ ih =>
      obtain ⟨hsealed, -, hend⟩ := a2rSealReply_sends hverb htaken hsent
      rw [hend] at ih
      intro r hr
      rcases List.mem_cons.mp hr with rfl | hr
      · exact ⟨_, hsealed⟩
      · exact ih r hr

/-- No number overflows. -/
theorem Emits.seq_lt {s : Sender} {replies : List Reply} (h : Emits P s replies)
    (hseq : s.a2r.seq < 2 ^ 64) : s.a2r.seq + (replies.flatMap (·.frames)).length < 2 ^ 64 := by
  induction h with
  | done s => simpa using hseq
  | other ha2r _ ih => rw [← ha2r] at hseq ⊢; exact ih hseq
  | @reply s s' verb text n replies hverb htaken hsent hlt _ ih =>
      obtain ⟨hsealed, -, hend⟩ := a2rSealReply_sends hverb htaken hsent
      have hrest := ih hlt
      rw [hend] at hrest
      dsimp only at hrest
      rw [List.flatMap_cons, List.length_append]
      have := hsealed.length_eq
      dsimp only at *
      omega

end Primitives

end IrcBot.Sendq
