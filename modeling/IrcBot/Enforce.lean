/-
# Enforcement acts on members (`chanenf.rs`), and the event they report (`hub_client.rs`)

The deop and the reop of a member. Each acts only while the bot is opped and only
on a verdict of `entry_authorised`, remembers the act for 30 s, and reports it to
the hub through a rate limiter.

* `chanEvent_eq` — a report touches the link and the limiter only.
* `namesOnly_actReop` — a reop names a member that is authorised.
-/
import IrcBot.Chanenf
import IrcBot.Chancfg

namespace IrcBot.Enforce

open Cstr Chancfg Chanenf

/-! ### `chan_event` -/

def chanEventActions : List Str :=
  [str "deop", str "reop", str "kick", str "ban", str "unban", str "moderevert", str "limit",
    str "floodtrip", str "ignore"]

/-- `event_clean`: cut on a character boundary, control bytes and the delimiter
flattened to spaces. -/
def eventClean (cap : Nat) (src : Str) : Str :=
  (trunc src cap).map fun c => if c < 0x20 ∨ c = 0x7f ∨ c = byte '|' then byte ' ' else c

/-- The longest frame of an event, and one more. -/
def chanEventMax : Nat := maxChan + 16 + chanEventTargetMax + chanEventDetailMax + 8

/-- The first of the dedupe slots with the oldest time. -/
def oldestSlot (seen : List ChanEventSeen) : Nat :=
  seen.zipIdx.foldl
    (fun best (e, i) => if e.when < (seen.getD best {}).when then i else best) 0

/-- The event has been sent a moment ago, or too many have. -/
def chanEventLimited (lim : ChanEventLim) (slot : Option Nat) (now : Int) : Bool :=
  slot.any (fun i => now - (lim.seen.getD i {}).when < chanEventDedupeSecs) ||
    (lim.window.getD lim.widx 0 != 0 && now - lim.window.getD lim.widx 0 < chanEventWindowSecs)

/-- One more send in the window. -/
def markWindow (lim : ChanEventLim) (now : Int) : ChanEventLim :=
  { lim with
    window := lim.window.set lim.widx now
    widx := (lim.widx + 1) % chanEventWindowMax }

/-- The count of what the limiter held back, sent once in its own slot of the
window. -/
def chanEventSummary (b : BotState) : BotState :=
  let lim := b.chanEvent
  let first := lim.window.getD lim.widx 0
  let out := lim.supChan ++ str "|" ++ lim.supAction ++ str "|*|" ++ decNat lim.suppressed ++
    str " events suppressed"
  if 0 < lim.suppressed ∧ (first = 0 ∨ chanEventWindowSecs ≤ b.now - first) ∧
      out.length < chanEventMax then
    match sendFrame { b with chanEvent := markWindow lim b.now } cmdChanEvent out with
    | (true, b) => { b with chanEvent := { b.chanEvent with suppressed := 0 } }
    | (false, b) => b
  else b

/-- `chan_event`: one enforcement action, rate limited. -/
def chanEvent (b : BotState) (chan action target detail : Str) : Bool × BotState :=
  let tgt := eventClean (chanEventTargetMax + 1) target
  let det := eventClean (chanEventDetailMax + 1) detail
  let key := (chan ++ str "|" ++ action ++ str "|" ++ tgt).map lower
  if chan.head? ≠ some (byte '#') ∧ chan.head? ≠ some (byte '&') then (false, b)
  else if !chanEventActions.contains action || maxChan ≤ chan.length then (false, b)
  else if !linkReady b then (false, b)
  else if tgt.isEmpty || maxChan + 16 + chanEventTargetMax + 4 ≤ key.length then (false, b)
  else
    let lim := b.chanEvent
    let slot := lim.seen.findIdx? fun e => e.when != 0 && e.key == key
    if chanEventLimited lim slot b.now then
      (false, { b with
        chanEvent := { lim with
          suppressed := lim.suppressed + 1
          supChan := trunc chan maxChan
          supAction := trunc action 16 } })
    else
      let lim := { lim with seen := lim.seen.set (slot.getD (oldestSlot lim.seen)) ⟨key, b.now⟩ }
      let out := chan ++ str "|" ++ action ++ str "|" ++ tgt ++ str "|" ++ det
      if chanEventMax ≤ out.length then (false, { b with chanEvent := lim })
      else
        match sendFrame { b with chanEvent := markWindow lim b.now } cmdChanEvent out with
        | (true, b) => (true, chanEventSummary b)
        | (false, b) => (false, b)

/-! ### The same act again -/

def recentActMs : Int := 30000

/-- The key under which an act is remembered. -/
def recentKeyOf (name act target : Str) : Str :=
  trunc (name ++ str "|" ++ act ++ str "|" ++ target) (maxChan + 8 + maxMaskLen)

/-- `recent_key`: the act was done inside the window; if not, it is noted. -/
def recentKey (b : BotState) (name act target : Str) (windowMs : Int) : Bool × BotState :=
  let lk := lowerCopy (recentKeyOf name act target) (maxChan + 8 + maxMaskLen)
  if b.enfRecent.any fun r => r.whenMs != 0 && r.key == lk && b.monoMs - r.whenMs < windowMs then
    (true, b)
  else
    (false, { b with
      enfRecent := b.enfRecent.set b.enfRecentIdx ⟨lk, b.monoMs⟩
      enfRecentIdx := (b.enfRecentIdx + 1) % IrcBot.enfRecent })

/-! ### The acts -/

/-- `Isupport::nicklen`: the longest member nick accepted. -/
def nicklen (is : Isupport) : Nat :=
  min (if 0 < is.nicklen then is.nicklen else nicklenDefault).toNat (maxMemberNick - 1)

def validNick (b : BotState) (n : Str) : Bool :=
  !n.isEmpty && n.length ≤ nicklen b.isup &&
    n.all fun c => isAlpha c || isDigit c || (str "[]\\`_^\x7b|\x7d-").contains c

/-- The member of channel `c` called `nick`, with its place in the roster. -/
def member (c : Chan) (nick : Str) : Option (Nat × RosterEntry) :=
  (rfind c nick).bind fun i => c.roster[i]?.map fun e => (i, e)

/-- `entry_authorised` of a member, with the caches filled. -/
def memberVerdict (b : BotState) (ci i : Nat) (e : RosterEntry) : Bool × BotState :=
  let (ok, e, b) := entryAuthorised b e
  (ok, withChan b ci fun c => { c with roster := c.roster.set i e })

/-- `act_deop`: `half` for the halfop. -/
def actDeop (b : BotState) (ci : Nat) (nick why : Str) (half : Bool) : BotState :=
  match b.chans[ci]? with
  | none => b
  | some c =>
      if !c.iAmOpped || !validNick b nick then b
      else
        match member c nick with
        | none => b
        | some (i, e) =>
            if !(if half then e.isHalfop else e.isOp) then b
            else
              match memberVerdict b ci i e with
              | (true, b) => b
              | (false, b) =>
                  match recentKey b c.name (if half then str "dehalf" else str "deop") e.nick
                      recentActMs with
                  | (true, b) => b
                  | (false, b) =>
                      let mode := if half then str " -h " else str " -o "
                      let b := ircPrintf b (str "MODE " ++ c.name ++ mode ++ e.nick ++ crlf)
                      (chanEvent b c.name (str "deop") e.nick why).2

/-- `act_reop`. -/
def actReop (b : BotState) (ci : Nat) (nick why : Str) : BotState :=
  match b.chans[ci]? with
  | none => b
  | some c =>
      if !c.iAmOpped || !validNick b nick then b
      else
        match member c nick with
        | none => b
        | some (i, e) =>
            if e.isOp || isMe b e.nick then b
            else
              match memberVerdict b ci i e with
              | (false, b) => b
              | (true, b) =>
                  match recentKey b c.name (str "reop") e.nick recentActMs with
                  | (true, b) => b
                  | (false, b) =>
                      let b := ircPrintfNamed b (.op c.name e.nick)
                      (chanEvent b c.name (str "reop") e.nick why).2

/-! ### What these can change -/

/-- A report touches the link and the limiter only. -/
theorem chanEvent_eq (b : BotState) (chan action target detail : Str) :
    ∃ link out lim, (chanEvent b chan action target detail).2 =
      { b with link := link, hubOut := out, chanEvent := lim } := by
  have hsend (b : BotState) (out : Str) : ∃ link log,
      (sendFrame b cmdChanEvent out).2 = { b with link := link, hubOut := log } :=
    ⟨_, _, (sameButLink_sendFrame b cmdChanEvent out).eq⟩
  have hsummary (b : BotState) : ∃ link out lim,
      chanEventSummary b = { b with link := link, hubOut := out, chanEvent := lim } := by
    unfold chanEventSummary
    dsimp only
    split
    · obtain ⟨link, log, hsent⟩ := hsend { b with chanEvent := markWindow b.chanEvent b.now }
        (b.chanEvent.supChan ++ str "|" ++ b.chanEvent.supAction ++ str "|*|" ++
          decNat b.chanEvent.suppressed ++ str " events suppressed")
      split
      · rename_i heq
        rw [heq] at hsent
        dsimp only at hsent
        rw [hsent]
        exact ⟨_, _, _, rfl⟩
      · rename_i heq
        rw [heq] at hsent
        exact ⟨_, _, _, hsent⟩
    · exact ⟨_, _, _, rfl⟩
  unfold chanEvent
  dsimp only
  split
  · exact ⟨_, _, _, rfl⟩
  · split
    · exact ⟨_, _, _, rfl⟩
    · split
      · exact ⟨_, _, _, rfl⟩
      · split
        · exact ⟨_, _, _, rfl⟩
        · split
          · exact ⟨_, _, _, rfl⟩
          · split
            · exact ⟨_, _, _, rfl⟩
            · split
              · rename_i b' heq
                obtain ⟨link, log, hsent⟩ := hsend _ _
                rw [heq] at hsent
                obtain ⟨link', log', lim, hsum⟩ := hsummary b'
                dsimp only at hsent
                refine ⟨link', log', lim, ?_⟩
                rw [hsum, hsent]
              · rename_i b' heq
                obtain ⟨link, log, hsent⟩ := hsend _ _
                rw [heq] at hsent
                exact ⟨link, log, _, hsent⟩

theorem recentKey_eq (b : BotState) (name act target : Str) (windowMs : Int) :
    ∃ ring idx, (recentKey b name act target windowMs).2 =
      { b with enfRecent := ring, enfRecentIdx := idx } := by
  unfold recentKey
  dsimp only
  split <;> exact ⟨_, _, rfl⟩

theorem memberVerdict_eq (b : BotState) (ci i : Nat) (e : RosterEntry) :
    (memberVerdict b ci i e).1 = entryVerdict b e ∧
      ∃ cells chans, (memberVerdict b ci i e).2 = { b with auth := cells, chans := chans } := by
  have hstate : (entryAuthorised b e).2.2 = { b with auth := (entryAuthorised b e).2.2.auth } := by
    unfold entryAuthorised
    split
    · rfl
    · rfl
  refine ⟨rfl, (entryAuthorised b e).2.2.auth, (memberVerdict b ci i e).2.chans, ?_⟩
  unfold memberVerdict withChan
  dsimp only
  rw [hstate]

/-- **A reop names an authorised member**, by the name of its channel. -/
theorem namesOnly_actReop (b : BotState) (ci : Nat) (nick why : Str) :
    NamesOnly (fun x => ∃ c i e, b.chans[ci]? = some c ∧ member c nick = some (i, e) ∧
      x = .op c.name e.nick ∧ entryVerdict b e = true) b (actReop b ci nick why) := by
  unfold actReop
  split
  · exact .refl b
  · rename_i c hc
    split
    · exact .refl b
    · split
      · exact .refl b
      · rename_i i e hmember
        split
        · exact .refl b
        · obtain ⟨hverdict, cells, chans, hstate⟩ := memberVerdict_eq b ci i e
          split
          · rename_i b' heq
            rw [heq] at hstate
            dsimp only at hstate
            exact .of_eq (by rw [hstate])
          · rename_i b₁ heq
            rw [heq] at hstate hverdict
            dsimp only at hstate
            have hfill : b₁.named = b.named := by rw [hstate]
            obtain ⟨ring, idx, hrecent⟩ := recentKey_eq b₁ c.name (str "reop") e.nick recentActMs
            split
            · rename_i b₂ heq₂
              rw [heq₂] at hrecent
              dsimp only at hrecent
              exact .of_eq (by rw [hrecent, hstate])
            · rename_i b₂ heq₂
              rw [heq₂] at hrecent
              dsimp only at hrecent
              have hnote : b₂.named = b.named := by rw [hrecent, hstate]
              obtain ⟨link, log, lim, hevent⟩ := chanEvent_eq
                (ircPrintfNamed b₂ (.op c.name e.nick)) c.name (str "reop") e.nick why
              have hreport : ((chanEvent (ircPrintfNamed b₂ (.op c.name e.nick)) c.name (str "reop")
                  e.nick why).2).named = (ircPrintfNamed b₂ (.op c.name e.nick)).named := by
                rw [hevent]
              have hline := (NamesOnly.of_eq hnote).trans
                (namesOnly_ircPrintfNamed b₂ (.op c.name e.nick))
              exact (hline.of_named hreport).mono fun x hx =>
                ⟨c, i, e, hc, hmember, hx, hverdict.symm⟩

end IrcBot.Enforce
