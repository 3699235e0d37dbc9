/-
# Commands of other bots (`bot_comms.rs`)

A frame of a trusted bot comes in over PRIVMSG or by the hub's relay;
`openAndDispatch` opens it (`B2.openB2`) and runs its command.

* `dispatched_once` — no frame is dispatched twice in a run in which no frame's
  stamp is ahead of the receiver's clock.
* `not_dispatched_once` — with a stamp 60 seconds ahead, which the skew allows,
  the nonce expires while the stamp is still good.
-/
import IrcBot.Channel

namespace IrcBot.BotComms

open Cstr Crypto Envelope Auth HubPush B2 Channel

variable (P : Primitives)

/-! ### The commands -/

/-- OPME: op the sender of the PRIVMSG. -/
def dispatchOpme (b : BotState) (channel : Str) (senderNick : Option Str) : BotState :=
  match senderNick with
  | some n => ircPrintfNamed b (.op channel n)
  | none => b

/-- SETNICK. -/
def dispatchSetnick (b : BotState) (nick : Str) : BotState :=
  if isRfcNick nick then
    let b := { b with targetNick := nick, currentNickTs := b.now }
    writeConfig (pushDelta b (str "n") nick b.currentNickTs).2
  else b

/-- INVITE: invite `nick` where the bot is and has ops. -/
def dispatchInvite (b : BotState) (channel nick : Str) : BotState :=
  match (Chancfg.find b channel).bind fun ci => b.chans[ci]? with
  | some c =>
      if c.status = .inside ∧ c.iAmOpped then ircPrintfNamed b (.invite nick channel) else b
  | none => b

/-- The second half of `open_and_dispatch`: run a command of `sender`. -/
def dispatch (b : BotState) (sender : TrustedBot) (cmd : Str) (senderNick : Option Str) :
    BotState :=
  match tokNext (str " ") cmd with
  | (none, _) => b
  | (some verb, rest) =>
      match tokNext (str " ") rest with
      | (none, _) => b
      | (some arg1, rest) =>
          if eqIc verb (str "OPME") then dispatchOpme b arg1 senderNick
          else if eqIc verb (str "SETNICK") then dispatchSetnick b arg1
          else if eqIc verb (str "INVITE") then
            match (tokNext (str " ") rest).1 with
            | some arg2 => dispatchInvite b arg1 arg2
            | none => b
          else if eqIc verb (str "UNBAN") then
            -- the mask matched against the ban list is the sender's own record
            accessService P b [] .unban arg1 none (some sender.mask) none
          else if eqIc verb (str "KEY") then
            match senderNick with
            | some n => accessService P b [] .key arg1 none none (some n)
            | none => b
          else if eqIc verb (str "KEYIS") then
            match (tokNext (str " ") rest).1 with
            | some arg2 => accessAcceptKey b arg1 arg2
            | none => b
          else b

/-- A frame that was dispatched: sender, stamp and nonce. -/
structure Frame where
  sender : Str
  ts : Int
  nonce : UInt64
deriving DecidableEq, Repr

/-- `open_and_dispatch`, and the frame it dispatched, if any. -/
def openAndDispatch (b : BotState) (ti : Nat) (b64 : Str) (senderNick : Option Str) :
    Option Frame × BotState :=
  match b.trustedBots[ti]? with
  | none => (none, b)
  | some sender =>
      match openB2 P b sender b64 with
      | (none, b) => (none, b)
      | (some (ts, nonce, cmd), b) =>
          (some ⟨sender.uuid, ts, nonce⟩, dispatch P b sender cmd senderNick)

/-! ### The two ways in -/

/-- `process_payload`: a frame relayed by the hub, `<sender_uuid>|~B2 <b64>`. -/
def processPayload (b : BotState) (payload : Str) : Option Frame × BotState :=
  match Chancfg.splitOnce (byte '|') payload with
  | none => (none, b)
  | some (uuid, rest) =>
      if uuid.isEmpty || uuidBuf ≤ uuid.length then (none, b)
      else
        match lit (str "~B2 ") rest, trustedBotByUuid b uuid with
        | some b64, some ti => openAndDispatch P b ti b64 none
        | _, _ => (none, b)

/-- `handle_privmsg`: true if it was a ~B2 frame, handled or dropped. -/
def handlePrivmsg (b : BotState) (nick userHost message : Str) : Bool × Option Frame × BotState :=
  match lit (str "~B2 ") message with
  | none => (false, none, b)
  | some b64 =>
      match trustedBotByHost b userHost with
      | some ti => (true, openAndDispatch P b ti b64 (some nick))
      | none => (true, none, b)

/-! ### What a frame does to the nonces -/

theorem sameButAccess_dispatch (b : BotState) (sender : TrustedBot) (cmd : Str)
    (senderNick : Option Str) : SameButAccess b (dispatch P b sender cmd senderNick) := by
  have hservice := sameButAccess_accessService P b
  unfold dispatch
  split
  · exact .refl b
  · split
    · exact .refl b
    · split
      · unfold dispatchOpme
        split
        · exact sameButAccess_ircPrintfNamed b _
        · exact .refl b
      · split
        · unfold dispatchSetnick
          split
          · have hdelta := fun b v ts => sameButAccess_of_push (sameButPush_pushDelta b (str "n") v ts)
            have hwrite := fun b => sameButAccess_of_push (sameButPush_writeConfig b)
            exact SameButAccess.trans ⟨rfl⟩ ((hdelta _ _ _).trans (hwrite _))
          · exact .refl b
        · split
          · split
            · unfold dispatchInvite
              split
              · split
                · exact sameButAccess_ircPrintfNamed b _
                · exact .refl b
              · exact .refl b
            · exact .refl b
          · split
            · exact hservice _ _ _ _ _ _
            · split
              · split
                · exact hservice _ _ _ _ _ _
                · exact .refl b
              · split
                · split
                  · exact sameButAccess_accessAcceptKey b _ _
                  · exact .refl b
                · exact .refl b

/-- The stamp of a frame is not ahead of the receiver's clock. -/
def NotAhead (b : BotState) (sender : TrustedBot) (b64 : Str) : Prop :=
  ∀ pt ts nonce cmd, (openFrom P b sender b64).1 = some pt →
    envelopeParse (fromUtf8Lossy pt) = some (ts, nonce, cmd) → ts ≤ b.now

/-- A frame either leaves the cache alone and is not dispatched, or its nonce was
not seen, and is recorded. -/
theorem nonces_openB2 {b b' : BotState} {sender : TrustedBot} {b64 : Str}
    {env : Option (Int × UInt64 × Str)} (h : openB2 P b sender b64 = (env, b')) :
    b'.now = b.now ∧
      match env with
      | none => b'.recentNonces = b.recentNonces
      | some (ts, nonce, _) =>
          (NotAhead P b sender b64 → ts ≤ b.now) ∧ b.now - ts ≤ b2TsSkew ∧
            b.recentNonces.seen nonce b.now = false ∧
            b'.recentNonces = b.recentNonces.record nonce b.now := by
  obtain ⟨raw, hopen⟩ := openFrom_eq P b sender b64
  unfold NotAhead
  unfold openB2 at h
  rcases hr : openFrom P b sender b64 with ⟨pt, b₁⟩
  rw [hr] at h hopen
  dsimp only at hopen
  subst hopen
  cases pt with
  | none =>
      obtain ⟨rfl, rfl⟩ : none = env ∧ _ = b' := by simpa using h
      exact ⟨rfl, rfl⟩
  | some pt =>
      dsimp only at h
      split at h
      · obtain ⟨rfl, rfl⟩ : none = env ∧ _ = b' := by simpa using h
        exact ⟨rfl, rfl⟩
      · split at h
        · obtain ⟨rfl, rfl⟩ : none = env ∧ _ = b' := by simpa using h
          exact ⟨rfl, rfl⟩
        · rename_i ts nonce cmd henv
          split at h
          · obtain ⟨rfl, rfl⟩ : none = env ∧ _ = b' := by simpa using h
            exact ⟨rfl, rfl⟩
          · rename_i hskew
            split at h
            · obtain ⟨rfl, rfl⟩ : none = env ∧ _ = b' := by simpa using h
              exact ⟨rfl, rfl⟩
            · rename_i hunseen
              obtain ⟨rfl, rfl⟩ : some (ts, nonce, cmd) = env ∧ _ = b' := by simpa using h
              refine ⟨rfl, fun hahead => hahead pt ts nonce cmd rfl henv, ?_, ?_, rfl⟩
              · omega
              · simpa using hunseen

/-! ### Runs -/

/-- A dispatched frame, and when. -/
structure Dispatched where
  frame : Frame
  time : Int

/-- What one delivery adds to the frames dispatched. -/
def note (time : Int) : Option Frame → List Dispatched → List Dispatched
  | some f, tr => ⟨f, time⟩ :: tr
  | none, tr => tr

/-- Runs of one process: deliveries to `open_and_dispatch`, each of them `ok`, and
anything else the bot does, with what has been dispatched so far, newest first.
The clock does not go back. -/
inductive Run (ok : BotState → TrustedBot → Str → Prop) : BotState → List Dispatched → Prop
  | start (b : BotState) : Run ok b []
  | deliver {b tr} (h : Run ok b tr) (ti : Nat) (b64 : Str) (senderNick : Option Str)
      (hok : ∀ sender, b.trustedBots[ti]? = some sender → ok b sender b64) :
      Run ok (openAndDispatch P b ti b64 senderNick).2
        (note b.now (openAndDispatch P b ti b64 senderNick).1 tr)
  /-- Everything else: only deliveries touch the cache. -/
  | other {b b' tr} (h : Run ok b tr) (hcache : b'.recentNonces = b.recentNonces)
      (hclock : b.now ≤ b'.now) : Run ok b' tr

/-- The nonces recorded, with their times, newest first. -/
def recorded (tr : List Dispatched) : List (UInt64 × Int) := tr.map fun d => (d.frame.nonce, d.time)

/-- No frame is dispatched twice. -/
def DispatchedOnce (tr : List Dispatched) : Prop := tr.Pairwise fun d e => d.frame ≠ e.frame

/-- A dispatched frame as the cache sees it. -/
def Dispatched.receipt (d : Dispatched) : Lib.ReplayRing.Receipt UInt64 :=
  ⟨d.frame.nonce, d.frame.ts, d.time⟩

/-- One delivery is one step of the receiver behind the cache. -/
theorem ringRun_deliver {b : BotState} {tr : List Dispatched}
    (h : Lib.ReplayRing.Run nonceTtlSeconds 0 b2TsSkew b.recentNonces b.now
      (tr.map Dispatched.receipt))
    (ti : Nat) (b64 : Str) (senderNick : Option Str)
    (hok : ∀ sender, b.trustedBots[ti]? = some sender → NotAhead P b sender b64) :
    Lib.ReplayRing.Run nonceTtlSeconds 0 b2TsSkew
      (openAndDispatch P b ti b64 senderNick).2.recentNonces
      (openAndDispatch P b ti b64 senderNick).2.now
      ((note b.now (openAndDispatch P b ti b64 senderNick).1 tr).map Dispatched.receipt) := by
  unfold openAndDispatch
  split
  · exact h
  · rename_i sender hsender
    split
    · rename_i b' hopen
      obtain ⟨hnow, hcache⟩ := nonces_openB2 P hopen
      rw [hcache, hnow]
      exact h
    · rename_i ts nonce cmd b' hopen
      obtain ⟨hnow, hearly, hlate, hunseen, hcache⟩ := nonces_openB2 P hopen
      have hrest := (sameButAccess_dispatch P b' sender cmd senderNick).eq
      rw [hrest]
      dsimp only
      rw [hcache, hnow]
      have hts := hearly (hok sender hsender)
      exact h.accept nonce ts (by omega) hlate hunseen

/-- **Deliveries implement the receiver**: every run is a run of it. -/
theorem Run.ringRun {b : BotState} {tr : List Dispatched} (h : Run P (NotAhead P) b tr) :
    Lib.ReplayRing.Run nonceTtlSeconds 0 b2TsSkew b.recentNonces b.now
      (tr.map Dispatched.receipt) := by
  induction h with
  | start b => exact .start _ _
  | deliver _ ti b64 senderNick hok ih => exact ringRun_deliver P ih ti b64 senderNick hok
  | other _ hcache hclock ih =>
      rw [hcache]
      exact ih.tick hclock

/-- **No frame is dispatched twice** in a run in which no stamp is ahead of the
receiver's clock, while fewer than 4096 different nonces are recorded within any
one lifetime. -/
theorem dispatched_once {b : BotState} {tr : List Dispatched} (h : Run P (NotAhead P) b tr)
    (hrate : Lib.ReplayRing.Sparse nonceTtlSeconds nonceCacheSize (recorded tr)) :
    DispatchedOnce tr := by
  have hnodup := (h.ringRun P).nodup (by decide) (by
    simpa [recorded, Dispatched.receipt, Lib.ReplayRing.Receipt.entry, Function.comp_def]
      using hrate)
  refine (List.pairwise_map.mp hnodup).imp fun {d e} hne heq => ?_
  exact hne ⟨congrArg Frame.nonce heq, congrArg Frame.ts heq⟩

/-! ### A frame that is repeated -/

theorem notAhead_of_open {b : BotState} {sender : TrustedBot} {b64 pt cmd : Str} {ts : Int}
    {nonce : UInt64} (hopen : (openFrom P b sender b64).1 = some pt)
    (henv : envelopeParse (fromUtf8Lossy pt) = some (ts, nonce, cmd)) (hts : ts ≤ b.now) :
    NotAhead P b sender b64 := by
  intro pt' ts' nonce' cmd' hopen' henv'
  rw [hopen] at hopen'
  obtain rfl : pt = pt' := by simpa using hopen'
  rw [henv] at henv'
  simp only [Option.some.injEq, Prod.mk.injEq] at henv'
  omega

/-- The peer of `onePeer`. -/
def peer : TrustedBot := { mask := str "p!p@p.net", uuid := str "p", hasPub := true }

/-- A bot that trusts one other bot, at time 100. -/
def onePeer : BotState :=
  { now := 100, connected := true, botUuid := str "me", selfPubSet := true
    hubKeyRaw := List.replicate 64 1, trustedBots := [peer] }

/-- What the peer seals at `ts` (three digits). -/
def opme (ts : Str) : Str := ts ++ str ":00000000000000ff:OPME #ch"

/-- Its frame. -/
def opmeFrame (ts : Str) : Str := List.replicate 44 0 ++ opme ts ++ List.replicate 16 0

/-- One delivery of the frame stamped `ts`. -/
def deliverOpme (b : BotState) (ts : Str) : Option Frame × BotState :=
  openAndDispatch .clear b 0 (opmeFrame ts) (some (str "p"))

/-- A frame stamped 100 is dispatched at 100; its repetition is not. -/
theorem dispatched_once_repeated :
    (deliverOpme onePeer (str "100")).1 = some ⟨str "p", 100, 255⟩ ∧
      (deliverOpme (deliverOpme onePeer (str "100")).2 (str "100")).1 = none ∧
      DispatchedOnce [⟨⟨str "p", 100, 255⟩, 100⟩] := by
  have hsent : (deliverOpme onePeer (str "100")).1 = some ⟨str "p", 100, 255⟩ := by decide +kernel
  refine ⟨hsent, by decide +kernel, ?_⟩
  have hok : ∀ sender, onePeer.trustedBots[0]? = some sender →
      NotAhead .clear onePeer sender (opmeFrame (str "100")) := by
    intro sender hsender
    obtain rfl : peer = sender := by simpa [onePeer] using hsender
    have hopen : (openFrom .clear onePeer peer (opmeFrame (str "100"))).1 =
        some (opme (str "100")) := by decide
    have henv : envelopeParse (fromUtf8Lossy (opme (str "100"))) =
        some (100, 255, str "OPME #ch") := by decide
    exact notAhead_of_open .clear hopen henv le_rfl
  have hrun : Run .clear (NotAhead .clear) (deliverOpme onePeer (str "100")).2
      (note 100 (deliverOpme onePeer (str "100")).1 []) :=
    (Run.start onePeer).deliver 0 (opmeFrame (str "100")) (some (str "p")) hok
  rw [hsent] at hrun
  exact dispatched_once .clear hrun
    (Lib.ReplayRing.sparse_of_length_lt (by simp [recorded, nonceCacheSize]))

/-! ### A stamp from a fast clock -/

/-- The state after a frame stamped 160 has come in at 100. -/
def afterFirst : BotState := (deliverOpme onePeer (str "160")).2

/-- The same, 61 seconds later. -/
def later : BotState := { afterFirst with now := 161 }

/-- Both times the command is carried out. -/
example : (deliverOpme later (str "160")).2.ircOut =
    List.replicate 2 (str "MODE #ch +o p" ++ crlf) := by
  decide +kernel

/-- A frame from a clock 60 seconds ahead is dispatched, and again once its nonce
has expired. -/
theorem not_dispatched_once :
    ¬ ∀ (P : Primitives) (b : BotState) (tr : List Dispatched),
      Run P (fun _ _ _ => True) b tr →
        Lib.ReplayRing.Sparse nonceTtlSeconds nonceCacheSize (recorded tr) →
          DispatchedOnce tr := by
  intro honce
  have hsent : (deliverOpme onePeer (str "160")).1 = some ⟨str "p", 160, 255⟩ := by decide +kernel
  have hagain : (deliverOpme later (str "160")).1 = some ⟨str "p", 160, 255⟩ := by decide +kernel
  have hfirst : Run .clear (fun _ _ _ => True) afterFirst
      (note 100 (deliverOpme onePeer (str "160")).1 []) :=
    (Run.start onePeer).deliver 0 (opmeFrame (str "160")) (some (str "p")) fun _ _ => trivial
  have hlater : Run .clear (fun _ _ _ => True) later _ :=
    hfirst.other (by dsimp only [later]) (by decide +kernel)
  have htwice : Run .clear (fun _ _ _ => True) (deliverOpme later (str "160")).2
      (note 161 (deliverOpme later (str "160")).1 (note 100 (deliverOpme onePeer (str "160")).1 [])) :=
    hlater.deliver 0 (opmeFrame (str "160")) (some (str "p")) fun _ _ => trivial
  rw [hagain, hsent] at htwice
  have hnodup := honce _ _ _ htwice
    (Lib.ReplayRing.sparse_of_length_lt (by simp [recorded, note, nonceCacheSize]))
  simp [DispatchedOnce, note] at hnodup

end IrcBot.BotComms
