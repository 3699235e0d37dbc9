/-
# The pin file (`bot_auth.rs`)

The key of a bot is trusted where it is seen first, and asked for from then on. The pins are lines
of a text file, which is read again, chunk by chunk and field by field, for every offer.

* `fgetsChunks_pinned`, `scanTwo_pinLine` — what was written is found again.
* `pinFile_run` — so the file is a table that keeps the first key that was offered for a nick, and
  what is offered for other nicks does not matter.
-/
import IrcBot.BotAuth
import IrcBot.Lib.FirstUse

namespace IrcBot.PinFile

open Cstr BotAuth

/-- A field of `scan_two`, and what comes after it. -/
def field (width : Nat) (s : Str) : Option (Str × Str) :=
  let r := s.dropWhile isCSpace
  let len := ((r.take width).takeWhile (!isCSpace ·)).length
  if 0 < len then some (r.take len, r.drop len) else none

/-- `scan_two`. -/
def scanTwo (line : Str) : Option (Str × Str) := do
  let (a, rest) ← field 63 line
  let (b, _) ← field 127 rest
  some (a, b)

/-- `fingerprint`: eight bytes of the hash, in pairs. -/
def fingerprint (sha256 : Str → Str) (pubKey : Str) : Str :=
  let x (i : Nat) : Str := B2.hexByte ((sha256 pubKey).getD i 0)
  x 0 ++ x 1 ++ str ":" ++ x 2 ++ x 3 ++ str ":" ++ x 4 ++ x 5 ++ str ":" ++ x 6 ++ x 7

/-- What `pin_check` finds: the key of the pin, or another one for the bot, with the fingerprints
of the key that is pinned and of the one that was offered. -/
inductive Answer
  | ok
  | keyChanged (bot pinned offered : Str)
  deriving DecidableEq

/-- What `pin_check` returns. -/
def Answer.status : Answer → Int
  | .ok => 0
  | .keyChanged _ _ _ => 3

/-- What `pin_check` prints to stderr, for a pin file of that name. -/
def Answer.warning (pinfile : Str) : Answer → Str
  | .ok => []
  | .keyChanged bot pinned offered =>
      str "bot-auth: *** KEY CHANGED for " ++ bot ++ str ": pinned " ++ pinned ++ str ", offered " ++
        offered ++ str " ***\nbot-auth: possible man-in-the-middle, or the bot was rekeyed.\n" ++
        str "bot-auth: check the bot's 'status' / hub console 'bot list', then remove its line from " ++
        pinfile ++ str " to accept.\n"

/-- It fails exactly where it warns. -/
theorem Answer.warning_eq_nil_iff (pinfile : Str) (a : Answer) :
    a.warning pinfile = [] ↔ a.status = 0 := by
  cases a with
  | ok => exact iff_of_true rfl rfl
  | keyChanged bot pinned offered =>
      refine iff_of_false (fun h => ?_) (show ¬ (3 : Int) = 0 by decide)
      exact absurd (List.append_eq_nil_iff.mp h).2 (by decide)

section Check

variable (sha256 : Str → Str) (bot pubKey : Str)

/-- The loop over the lines of the file: nothing, where no line is the bot's. -/
def pinLoop : List Str → Option Answer
  | [] => none
  | line :: lines =>
      match scanTwo (untilNul line) with
      | none => pinLoop lines
      | some (n, k) =>
          if n ≠ lcCopy bot 64 then pinLoop lines
          else if k = b64enc pubKey then some .ok
          else
            let pinned :=
              match (b64dec k keyLen).filter (·.length = keyLen) with
              | some old => fingerprint sha256 old
              | none => str "(unreadable)"
            some (.keyChanged (Crypto.fromUtf8Lossy bot) pinned (fingerprint sha256 pubKey))

/-- "<lc botnick> <pubkey b64>". -/
def pinLine (nick pubKey : Str) : Str := nick ++ byte ' ' :: b64enc pubKey ++ [10]

/-- `pin_check`, and the file as it leaves it. A file that is not there is made. -/
def pinCheck (file : Str) : Answer × Str :=
  match pinLoop sha256 bot pubKey (fgetsChunks file 256) with
  | some a => (a, file)
  | none => (.ok, file ++ pinLine (lcCopy bot 64) pubKey)

end Check

/-! ### What was written is found again -/

/-- The nicks that a line has room for. -/
structure NickOk (nick : Str) : Prop where
  ne : nick ≠ []
  clean : ∀ c ∈ nick, isCSpace c = false ∧ c ≠ 0
  le : nick.length ≤ 63

instance (nick : Str) : Decidable (NickOk nick) :=
  decidable_of_iff
    (nick ≠ [] ∧ (nick.all fun c => decide (isCSpace c = false ∧ c ≠ 0)) = true ∧ nick.length ≤ 63)
    ⟨fun h => ⟨h.1, forall_of_all h.2.1, h.2.2⟩,
      fun h => ⟨h.ne, List.all_eq_true.mpr fun c hc => decide_eq_true (h.clean c hc), h.le⟩⟩

theorem field_of_clean {width : Nat} {w : Str} (hne : w ≠ []) (hw : ∀ c ∈ w, isCSpace c = false)
    (hle : w.length ≤ width) {sep : UInt8} (hsep : isCSpace sep = true) (rest : Str) :
    field width (w ++ sep :: rest) = some (w, sep :: rest) := by
  have hskip : (w ++ sep :: rest).dropWhile isCSpace = w ++ sep :: rest := by
    obtain ⟨c, w, rfl⟩ := List.exists_cons_of_ne_nil hne
    simp [hw c (by simp)]
  have hrun : ((w ++ sep :: rest).take width).takeWhile (!isCSpace ·) = w := by
    have hall : ∀ c ∈ w, (!isCSpace c) = true := fun c hc => by simp [hw c hc]
    rw [List.take_append, List.take_of_length_le hle, List.takeWhile_append_of_pos hall]
    cases width - w.length with
    | zero => simp
    | succ n => simp [hsep]
  unfold field
  dsimp only
  rw [hskip, hrun, if_pos (List.length_pos_of_ne_nil hne)]
  simp

/-- A field that white space comes before. -/
theorem field_cons {width : Nat} {sep : UInt8} (hsep : isCSpace sep = true) (s : Str) :
    field width (sep :: s) = field width s := by
  simp [field, hsep]

theorem length_b64enc_key {key : Str} (h : key.length = keyLen) : (b64enc key).length = 88 := by
  rw [length_b64enc, h]
  rfl

theorem key_ne_nil {key : Str} (h : key.length = keyLen) : key ≠ [] := by
  rintro rfl
  cases h

theorem scanTwo_pinLine {nick key : Str} (hnick : NickOk nick) (hkey : key.length = keyLen) :
    scanTwo (untilNul (pinLine nick key)) = some (nick, b64enc key) := by
  have hspace : isCSpace (byte ' ') = true := by decide
  have hnul : untilNul (pinLine nick key) = pinLine nick key := by
    refine untilNul_eq_self fun h => ?_
    rcases List.mem_append.mp h with h | h
    · rcases List.mem_append.mp h with h | h
      · exact (hnick.clean 0 h).2 rfl
      · rcases List.mem_cons.mp h with h | h
        · cases h
        · exact (clean_b64enc key 0 h).2 rfl
    · cases List.mem_singleton.mp h
  have hfirst : field 63 (pinLine nick key) = some (nick, byte ' ' :: (b64enc key ++ [10])) := by
    have hwhole : pinLine nick key = nick ++ byte ' ' :: (b64enc key ++ [10]) := by simp [pinLine]
    rw [hwhole]
    exact field_of_clean hnick.ne (fun c hc => (hnick.clean c hc).1) hnick.le hspace _
  have hle : (b64enc key).length ≤ 127 := by
    rw [length_b64enc_key hkey]
    decide
  have hsecond : field 127 (byte ' ' :: (b64enc key ++ [10])) = some (b64enc key, [10]) := by
    rw [field_cons hspace]
    exact field_of_clean (std.encode_ne_nil (key_ne_nil hkey))
      (fun c hc => (clean_b64enc key c hc).1) hle (by decide) []
  rw [hnul]
  simp [scanTwo, hfirst, hsecond]

/-- The file that pins are kept in. -/
def pinned (pins : List (Str × Str)) : Str := pins.flatMap fun p => pinLine p.1 p.2

/-- A pin that `pin_check` can have written. -/
structure PinOk (p : Str × Str) : Prop where
  nick : NickOk p.1
  key : p.2.length = keyLen

/-- A pin is one line, and fits the buffer. -/
theorem fgetsChunks_pinned {pins : List (Str × Str)} (h : ∀ p ∈ pins, PinOk p) :
    fgetsChunks (pinned pins) 256 = pins.map fun p => pinLine p.1 p.2 := by
  induction pins with
  | nil => rfl
  | cons p pins ih =>
      obtain ⟨hnick, hkey⟩ := h p (by simp)
      have hline : (10 : UInt8) ∉ p.1 ++ byte ' ' :: b64enc p.2 := by
        intro hmem
        rcases List.mem_append.mp hmem with hmem | hmem
        · cases (hnick.clean 10 hmem).1
        · rcases List.mem_cons.mp hmem with hmem | hmem
          · cases hmem
          · cases (clean_b64enc p.2 10 hmem).1
      have hlen : (p.1 ++ byte ' ' :: b64enc p.2).length + 1 < 256 := by
        have hle := hnick.le
        have hb64 := length_b64enc_key hkey
        simp only [List.length_append, List.length_cons]
        omega
      have hsplit : pinned (p :: pins) = (p.1 ++ byte ' ' :: b64enc p.2) ++ 10 :: pinned pins := by
        simp [pinned, pinLine]
      rw [hsplit, fgetsChunks_line hline hlen, ih fun q hq => h q (List.mem_cons_of_mem _ hq)]
      simp [pinLine]

section Lookup

variable (sha256 : Str → Str) {bot pubKey : Str}

/-- The answer to an offer for a bot, by the key that is pinned for it. -/
def answerTo (bot pubKey key : Str) : Answer :=
  if key = pubKey then .ok
  else .keyChanged (Crypto.fromUtf8Lossy bot) (fingerprint sha256 key) (fingerprint sha256 pubKey)

theorem pinLoop_pinned {pins : List (Str × Str)} (h : ∀ p ∈ pins, PinOk p) (bot pubKey : Str) :
    pinLoop sha256 bot pubKey (pins.map fun p => pinLine p.1 p.2) =
      (pins.lookup (lcCopy bot 64)).map (answerTo sha256 bot pubKey) := by
  induction pins with
  | nil => rfl
  | cons p pins ih =>
      obtain ⟨nick, key⟩ := p
      obtain ⟨hnick, hkey⟩ := h (nick, key) (by simp)
      have ih := ih fun q hq => h q (List.mem_cons_of_mem _ hq)
      simp only [List.map_cons, pinLoop, scanTwo_pinLine hnick hkey]
      by_cases hn : nick = lcCopy bot 64
      · subst hn
        have hold : b64dec (b64enc key) keyLen = some key :=
          b64dec_b64enc (key_ne_nil hkey) hkey.le
        have hmap : (some key).filter (fun v => decide (v.length = keyLen)) = some key := by
          simp [hkey]
        rw [if_neg (by simp), List.lookup_cons_self, Option.map_some, hold, hmap]
        simp only [b64enc_injective.eq_iff, answerTo]
        split
        · rfl
        · rfl
      · have hne : (lcCopy bot 64 == nick) = false := by simpa using Ne.symm hn
        rw [if_pos hn, ih]
        simp only [List.lookup_cons, hne]

/-- A nick that has a pin is answered by it; another one gets its pin. -/
theorem pinCheck_pinned {pins : List (Str × Str)} (h : ∀ p ∈ pins, PinOk p) (bot pubKey : Str) :
    pinCheck sha256 bot pubKey (pinned pins) =
      (((pins.lookup (lcCopy bot 64)).map (answerTo sha256 bot pubKey)).getD .ok,
        pinned (Lib.FirstUse.add pins (lcCopy bot 64, pubKey))) := by
  rw [pinCheck, fgetsChunks_pinned h, pinLoop_pinned sha256 h]
  unfold Lib.FirstUse.add
  cases pins.lookup (lcCopy bot 64) with
  | none => simp [pinned]
  | some key => simp

end Lookup

/-! ### Runs -/

/-- A call: the nick and the key that a bot offers. -/
structure Offer where
  bot : Str
  key : Str
  bot_ok : NickOk bot
  key_len : key.length = keyLen

/-- Nicks are the same up to case. -/
def Offer.nick (o : Offer) : Str := o.bot.map lower

def Offer.pin (o : Offer) : Str × Str := (o.nick, o.key)

theorem Offer.lcCopy_bot (o : Offer) : lcCopy o.bot 64 = o.nick :=
  lcCopy_of_lt (Nat.lt_succ_of_le o.bot_ok.le)

/-- A letter is no white space, in either case. -/
theorem isCSpace_lower (c : UInt8) : isCSpace (lower c) = isCSpace c ∧ (lower c = 0 ↔ c = 0) := by
  unfold lower isCSpace
  grind

theorem Offer.pin_ok (o : Offer) : PinOk o.pin := by
  refine ⟨⟨by simpa [pin, nick] using o.bot_ok.ne, fun c hc => ?_, ?_⟩, o.key_len⟩
  · obtain ⟨d, hd, rfl⟩ := List.mem_map.mp hc
    have hclean := o.bot_ok.clean d hd
    exact ⟨(isCSpace_lower d).1.trans hclean.1, fun h => hclean.2 ((isCSpace_lower d).2.mp h)⟩
  · simpa [pin, nick] using o.bot_ok.le

section Runs

variable (sha256 : Str → Str)

/-- The pin file after some calls, from an empty one. -/
def fileAfter (offers : List Offer) : Str :=
  offers.foldl (fun file o => (pinCheck sha256 o.bot o.key file).2) []

/-- What the next call answers. -/
def answer (offers : List Offer) (o : Offer) : Answer :=
  (pinCheck sha256 o.bot o.key (fileAfter sha256 offers)).1

/-- The table that the file keeps. -/
def pins (offers : List Offer) : List (Str × Str) := Lib.FirstUse.firsts (offers.map Offer.pin)

theorem pins_ok (offers : List Offer) : ∀ p ∈ pins offers, PinOk p := by
  intro p hp
  obtain ⟨o, -, rfl⟩ := List.mem_map.mp (Lib.FirstUse.mem_of_mem_firsts hp)
  exact o.pin_ok

theorem fileAfter_concat (offers : List Offer) (o : Offer) :
    fileAfter sha256 (offers ++ [o]) =
      (pinCheck sha256 o.bot o.key (fileAfter sha256 offers)).2 := by
  simp [fileAfter]

/-- The file is the table, line by line. -/
theorem fileAfter_eq (offers : List Offer) : fileAfter sha256 offers = pinned (pins offers) := by
  induction offers using List.reverseRecOn with
  | nil => rfl
  | append_singleton offers o ih =>
      rw [fileAfter_concat, ih, pinCheck_pinned sha256 (pins_ok offers), o.lcCopy_bot, pins, pins,
        List.map_append, List.map_singleton, Lib.FirstUse.firsts_concat]
      rfl

/-- The answer is about the first key that was offered for the nick. -/
theorem answer_eq (offers : List Offer) (o : Offer) :
    answer sha256 offers o =
      (((offers.map Offer.pin).lookup o.nick).map (answerTo sha256 o.bot o.key)).getD .ok := by
  rw [answer, fileAfter_eq, pinCheck_pinned sha256 (pins_ok offers), o.lcCopy_bot, pins,
    Lib.FirstUse.lookup_firsts]

theorem answerTo_eq_ok_iff {bot pubKey key : Str} :
    answerTo sha256 bot pubKey key = .ok ↔ key = pubKey := by
  unfold answerTo
  split
  · rename_i h
    simp [h]
  · rename_i h
    simp [h]

/-- After any calls, the file has a line for each nick, with the first key that was offered for it;
a call succeeds where that is the key it offers, or there is none yet; one that does not leaves the
file as it is; and the calls for other nicks make no difference to it. -/
theorem pinFile_run (offers : List Offer) :
    (fileAfter sha256 offers = pinned (pins offers) ∧ ((pins offers).map Prod.fst).Nodup ∧
      ∀ nick, (pins offers).lookup nick = (offers.map Offer.pin).lookup nick) ∧
    ∀ o : Offer,
      ((answer sha256 offers o).status = 0 ↔
        ∀ key, (offers.map Offer.pin).lookup o.nick = some key → o.key = key) ∧
      ((answer sha256 offers o).status ≠ 0 →
        fileAfter sha256 (offers ++ [o]) = fileAfter sha256 offers) ∧
      ∀ offers' : List Offer,
        offers'.filter (o.nick == ·.nick) = offers.filter (o.nick == ·.nick) →
          answer sha256 offers' o = answer sha256 offers o := by
  refine ⟨⟨fileAfter_eq sha256 offers, Lib.FirstUse.nodup_firsts _,
    fun nick => Lib.FirstUse.lookup_firsts _ nick⟩, fun o => ⟨?_, fun hrefused => ?_,
      fun offers' h => ?_⟩⟩
  · have hstatus (a : Answer) : a.status = 0 ↔ a = .ok := by
      cases a <;> simp [Answer.status]
    rw [hstatus, answer_eq]
    cases hfirst : (offers.map Offer.pin).lookup o.nick with
    | none => simp
    | some key => simp [answerTo_eq_ok_iff, eq_comm (a := key)]
  · rw [fileAfter_concat, fileAfter_eq, pinCheck_pinned sha256 (pins_ok offers)]
    rw [answer, fileAfter_eq, pinCheck_pinned sha256 (pins_ok offers)] at hrefused
    unfold Lib.FirstUse.add
    cases hfirst : (pins offers).lookup (lcCopy o.bot 64) with
    | none => simp [hfirst, Answer.status] at hrefused
    | some key => simp
  · have hown (os : List Offer) : (os.map Offer.pin).lookup o.nick =
        ((os.filter (o.nick == ·.nick)).map Offer.pin).lookup o.nick := by
      rw [← Lib.FirstUse.lookup_filter, List.filter_map]
      rfl
    rw [answer_eq, answer_eq, hown offers', h, ← hown offers]

end Runs

/-- A bot, and a key that is one byte over and over. -/
def offerOf (bot : Str) (c : UInt8) (h : NickOk bot) : Offer :=
  ⟨bot, List.replicate keyLen c, h, List.length_replicate⟩

/-- Another key for a bot is refused, in whatever case it is asked for. -/
theorem pinFile_run_changed :
    let offers := [offerOf (str "Bot") 1 (by decide +kernel),
      offerOf (str "other") 2 (by decide +kernel)]
    let o := offerOf (str "bOT") 2 (by decide +kernel)
    (answer (fun _ => []) offers o).status ≠ 0 ∧
      fileAfter (fun _ => []) (offers ++ [o]) = fileAfter (fun _ => []) offers := by
  intro offers o
  obtain ⟨hstatus, hfile, -⟩ := (pinFile_run (fun _ => []) offers).2 o
  have hrefused : (answer (fun _ => []) offers o).status ≠ 0 := by
    rw [Ne, hstatus]
    exact fun h => absurd (h (List.replicate keyLen 1) (by decide)) (by decide)
  exact ⟨hrefused, hfile hrefused⟩

end IrcBot.PinFile
