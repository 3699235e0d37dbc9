/-
# In-channel work (`chanenf.rs`)

What the enforcement does in a channel: deop, reop, kick, ban, unban, move the modes,
set the limit. Each act runs only while the bot is opped and reads the roster first.
Work is handed to the election: the holder of the job acts at once, its backups queue
what is to be done.

* `allowedMembersFill_fst` — the walk that fills the cached verdicts reports what one
  reading of them does.
* `core_jobSubmit` — no work changes more than caches, memories, queues and logs: the channels,
  their members and the bot's own standing there stay.
-/
import IrcBot.Chanlive
import IrcBot.Enforce
import IrcBot.LocalWrites

namespace IrcBot.Jobs

open Cstr Masks Auth Chancfg Chanenf Enforce LocalWrites

/-! ### Ban masks -/

def allIn (s set : Str) : Bool := !s.isEmpty && s.all set.contains

/-- IPv6: where the first four groups end, when they are spelled out. The walk stops
at a `::` inside them. -/
def fourGroups : Nat → Nat → Str → Option Nat
  | _, _, [] => none
  | i, colons, c :: rest =>
      if c = byte ':' then
        if colons + 1 < 4 ∧ rest.head? = some (byte ':') then none
        else if colons + 1 = 4 then some i
        else fourGroups (i + 1) (colons + 1) rest
      else fourGroups (i + 1) colons rest

/-- `a.b.c.d`: three dots, and one to three digits on each side. -/
def isIpv4 (host : Str) : Bool :=
  let groups := splitOn (byte '.') host
  groups.length == 4 && groups.all fun g => 1 ≤ g.length && g.length ≤ 3

/-- `widen_host`: the host widened one step; cloaks and short names stay as they are. -/
def widenHost (host : Str) : Str :=
  if host.contains (byte '/') then host
  else if host.contains (byte ':') then
    if !allIn host (str "0123456789abcdefABCDEF:.") then host
    else
      match fourGroups 0 0 host with
      | some i => if maxMaskLen - 1 < i + 2 then host else host.take (i + 1) ++ str "*"
      | none => host
  else if allIn host (str "0123456789.") then
    let last := host.length - ((splitOn (byte '.') host).getLast?.getD []).length - 1
    if !isIpv4 host || maxMaskLen - 1 < last + 2 then host else host.take (last + 1) ++ str "*"
  else
    let labels := splitOn (byte '.') host
    if labels.any (·.isEmpty) || labels.length < 3 then host
    else str "*" ++ host.drop (labels.head?.getD []).length

/-- What a component of a mask may be: literal text. -/
def literalText (p : Str) : Bool :=
  safeToken p maxMaskLen && !p.any fun c => (str "*?!@,").contains c

/-- `ban_mask`: the mask of `nuh` for a ban type. -/
def banMask (typ : Int) (nuh : Str) : Option Str :=
  if typ < 0 ∨ 9 < typ then none
  else
    match splitOnce (byte '!') nuh with
    | none => none
    | some (nick, rest) =>
        match splitOnce (byte '@') rest with
        | none => none
        | some (user, host) =>
            if nick.isEmpty || maxMemberNick ≤ nick.length || user.isEmpty || 64 ≤ user.length ||
                host.isEmpty || maxMaskLen ≤ host.length then none
            else if [nick, user, host].any (!literalText ·) then none
            else
              let h := if [3, 4, 8, 9].contains typ then widenHost host else host
              let nk := if 5 ≤ typ then nick else str "*"
              let tilde := if user.head? = some (byte '~') then user.tail else user
              let u :=
                if typ % 5 = 0 then user
                else if typ % 5 = 1 ∨ typ % 5 = 3 then str "*" ++ tilde
                else str "*"
              let out := nk ++ str "!" ++ u ++ str "@" ++ h
              if out.length ≤ banMaskMax then some out else none

/-! ### Who a ban would hit, with the caches filled -/

/-- Nick part of a `nick!user@host`, or of a bare nick. -/
def nuhNick (nuh : Str) : Option Str :=
  let n := nuh.takeWhile (· ≠ byte '!')
  if n.isEmpty || maxMemberNick ≤ n.length then none else some n

/-- `chan_nuh_authorised`: the bot itself, or somebody authorised; a member's cached
verdict counts while the roster has the same mask. -/
def chanNuhAuthorised (b : BotState) (ci : Nat) (nuh : Str) : Bool × BotState :=
  match nuhNick nuh with
  | none => (false, b)
  | some nick =>
      if isMe b nick then (true, b)
      else
        match (b.chans[ci]?.bind (member · nick)).filter fun (_, e) => eqIc e.hostmask nuh with
        | some (i, e) => memberVerdict b ci i e
        | none => (isAuthorised b nuh, b)

/-- The walk of `allowed_members`, from place `i` of the roster. -/
def allowedLoop (ci : Nat) (mask : Str) : BotState → Nat → List RosterEntry → Option Str × BotState
  | b, _, [] => (none, b)
  | b, i, e :: es =>
      let seen := memberVerdict b ci i e
      if seen.1 && wildcardMatch mask e.hostmask then (some (str "member " ++ e.nick), seen.2)
      else allowedLoop ci mask seen.2 (i + 1) es

/-- `allowed_members`. -/
def allowedMembersFill (b : BotState) (ci : Nat) (mask : Str) : Option Str × BotState :=
  match b.chans[ci]? with
  | none => (none, b)
  | some c => allowedLoop ci mask b 0 c.roster

/-- `ban_allowed`. -/
def banAllowed (b : BotState) (ci : Nat) (mask : Str) : Bool × BotState :=
  if !safeToken mask banMaskMax then (false, b)
  else
    let hit := allowedMembersFill b ci mask
    (hit.1.isNone && (maskOverlapsAuthorised hit.2 mask).isNone, hit.2)

/-- The ban types of `auto_ban_mask`, one after the other. -/
def autoBanLoop (ci : Nat) (nuh : Str) : BotState → List Int → Option Str × BotState
  | b, [] => (none, b)
  | b, typ :: order =>
      match banMask typ nuh with
      | none => autoBanLoop ci nuh b order
      | some m =>
          let allowed := banAllowed b ci m
          if allowed.1 then (some m, allowed.2) else autoBanLoop ci nuh allowed.2 order

/-- `auto_ban_mask`: the configured ban type, then the narrowing retry. -/
def autoBanMask (b : BotState) (ci : Nat) (nuh : Str) : Option Str × BotState :=
  autoBanLoop ci nuh b [get b b.chans[ci]? .banType, 2, 0, 7, 5].eraseDups

/-! ### Clocks and offences -/

/-- The first of the used clocks with the oldest match. -/
def oldestTrack (tracks : List BanTrack) : Option Nat :=
  tracks.zipIdx.foldl
    (fun best (tr, i) =>
      if tr.chan.isEmpty then best
      else
        match best with
        | none => some i
        | some o => if tr.lastMatch < (tracks.getD o {}).lastMatch then some i else best) none

/-- `track_get`: the clock of a ban on a channel, and its place. -/
def trackGet (b : BotState) (chan mask : Str) (t : Int) : Nat × BotState :=
  let tracks := b.banTrack
  match tracks.findIdx? fun tr => !tr.chan.isEmpty && eqIc tr.chan chan && eqIc tr.mask mask with
  | some i => (i, b)
  | none =>
      let slot :=
        match tracks.findIdx? fun tr => tr.chan.isEmpty with
        | some i => (i, tracks)
        | none =>
            if tracks.length < maxBanTrack then (tracks.length, tracks ++ [({} : BanTrack)])
            else ((oldestTrack tracks).getD 0, tracks)
      let fresh : BanTrack :=
        { chan := trunc chan maxChan, mask := trunc mask (banMaskMax + 1), lastMatch := t }
      (slot.1, { b with banTrack := slot.2.set slot.1 fresh })

/-- The clock of a ban, changed. -/
def withTrack (b : BotState) (ti : Nat) (f : BanTrack → BanTrack) : BotState :=
  { b with banTrack := b.banTrack.modify ti f }

/-- The walk of `offence` from slot `i`, with `left` slots to go: an offence that is
over is forgotten on the way. `slot` is the first free one, `oldest` the one that was
longest ago. -/
def offenceLoop (key : Str) (t span : Int) :
    Nat → Nat → List Offence → Option Nat → Nat → Nat × List Offence
  | 0, _, os, slot, oldest => (1, os.set (slot.getD oldest) ⟨key, t, 1⟩)
  | left + 1, i, os, slot, oldest =>
      let o := os.getD i {}
      let o := if !o.key.isEmpty ∧ span ≤ t - o.when then { o with key := [] } else o
      let os := os.set i o
      if o.key.isEmpty then offenceLoop key t span left (i + 1) os (slot.or (some i)) oldest
      else if o.key = key then (o.count + 1, os.set i { o with count := o.count + 1, when := t })
      else
        let oldest := if o.when < (os.getD oldest {}).when then i else oldest
        offenceLoop key t span left (i + 1) os slot oldest

/-- `offence`: one more by the host of `nuh` in a channel; how many that makes. -/
def offence (b : BotState) (chan nuh : Str) : Nat × BotState :=
  let host := (splitOnce (byte '@') nuh).elim nuh Prod.snd
  let key := trunc (lowerCopy chan maxChan ++ str "|" ++ lowerCopy host 120) (maxChan + 128)
  let bt := get b ((find b chan).bind fun ci => b.chans[ci]?) .banTime
  let span := if 0 < bt then bt * 60 else 86400
  let r := offenceLoop key b.now span maxOffences 0 b.offences none 0
  (r.1, { b with offences := r.2 })

/-! ### The acts -/

def recentBanSecs : Int := 30
def recentModeMs : Int := 10000

/-- `clean_reason`. -/
def cleanReason (src : Str) (dsz : Nat) : Str :=
  trunc (src.map fun c => if c < 0x20 ∨ c = 0x7f then byte ' ' else c) dsz

def liveHasBan (c : Chan) (mask : Str) : Bool := c.bans.any fun x => eqIc x.mask mask

/-- `act_kick`. -/
def actKick (b : BotState) (ci : Nat) (nick reason : Str) : BotState :=
  match b.chans[ci]? with
  | none => b
  | some c =>
      if !c.iAmOpped || !validNick b nick then b
      else
        match member c nick with
        | none => b
        | some (i, e) =>
            let verdict := memberVerdict b ci i e
            let again := recentKey verdict.2 c.name (str "kick") e.nick recentActMs
            if verdict.1 then verdict.2
            else if again.1 then again.2
            else
              let why := cleanReason (if reason.isEmpty then str "kicked" else reason)
                (banReasonMax + 1)
              let line := str "KICK " ++ c.name ++ str " " ++ e.nick ++ str " :" ++ why ++ crlf
              (chanEvent (ircPrintf again.2 line) c.name (str "kick") e.nick why).2

/-- The overlap check of a ban, at most once a minute. -/
def checkOverlap (b : BotState) (ti : Nat) (mask : Str) : BotState :=
  if 60 ≤ b.now - (b.banTrack.getD ti {}).checkedAt then
    withTrack b ti fun tr =>
      { tr with overlapOk := (maskOverlapsAuthorised b mask).isNone, checkedAt := b.now }
  else b

/-- `act_ban`. -/
def actBan (b : BotState) (ci : Nat) (mask why : Str) : BotState :=
  match b.chans[ci]? with
  | none => b
  | some c =>
      if !c.iAmOpped || !safeToken mask banMaskMax || liveHasBan c mask then b
      -- the server's list is full
      else if c.banListKnown && b.isup.banCap ≤ c.bans.length then b
      else
        let track := trackGet b c.name mask b.now
        let hit := allowedMembersFill track.2 ci mask
        let checked := checkOverlap hit.2 track.1 mask
        if b.now - (track.2.banTrack.getD track.1 {}).setAt < recentBanSecs then track.2
        else if hit.1.isSome then hit.2
        else if !(checked.banTrack.getD track.1 {}).overlapOk then checked
        else
          let b := withTrack checked track.1 fun tr => { tr with setAt := b.now }
          let b := ircPrintf b (str "MODE " ++ c.name ++ str " +b " ++ mask ++ crlf)
          (chanEvent b c.name (str "ban") mask why).2

/-- `act_unban`. -/
def actUnban (b : BotState) (ci : Nat) (mask why : Str) : BotState :=
  match b.chans[ci]? with
  | none => b
  | some c =>
      if !c.iAmOpped || !safeToken mask banMaskMax || !liveHasBan c mask then b
      else
        let again := recentKey b c.name (str "unban") mask recentActMs
        if again.1 then again.2
        else
          let b := ircPrintf again.2 (str "MODE " ++ c.name ++ str " -b " ++ mask ++ crlf)
          (chanEvent b c.name (str "unban") mask why).2

/-- `exec_ban_nuh`: the mask that is safe for `nuh`, recorded when bans are timed, and
set. -/
def execBanNuh (b : BotState) (ci : Nat) (nuh reason : Str) : BotState :=
  match nuhNick nuh, b.chans[ci]? with
  | some nick, some c =>
      if !c.iAmOpped then b
      else
        let entry := (member c nick).elim (false, b) fun (i, e) => memberVerdict b ci i e
        let whole := chanNuhAuthorised entry.2 ci nuh
        let auto := autoBanMask whole.2 ci nuh
        if entry.1 then entry.2
        else if whole.1 then whole.2
        else
          match auto.1 with
          | none => auto.2
          | some mask =>
              let bt := get auto.2 auto.2.chans[ci]? .banTime
              let b :=
                if 0 < bt then
                  (botBan auto.2 c.name mask (b.now + bt * 60) (some []) (some reason) false).2
                else auto.2
              actBan b ci mask (if reason.isEmpty then str "auto ban" else reason)
  | _, _ => b

/-- `exec_mode`: the live modes back to the stored ones. -/
def execMode (b : BotState) (ci : Nat) : BotState :=
  match b.chans[ci]? with
  | none => b
  | some c =>
      if get b (some c) .enforceModes = 0 ∨ !c.liveKnown ∨ !c.iAmOpped then b
      else
        let skipLimit := get b (some c) .dynamicLimit ≠ 0
        match (Chanlive.modeSync b ci skipLimit true true).1 with
        | .error _ => b
        | .ok 0 => b
        | .ok _ =>
            let again := recentKey b c.name (str "moderevert") [] recentModeMs
            if again.1 then again.2
            else
              match Chanlive.modeSync again.2 ci skipLimit false true with
              | (.error _, b) => b
              | (.ok 0, b) => b
              | (.ok n, b) =>
                  let sum := decNat n ++ str " change" ++ (if n = 1 then [] else str "s") ++
                    str " queued"
                  (chanEvent b c.name (str "moderevert") c.name (trunc sum 64)).2

/-- `limit_due`: the +l the dynamic limit wants now, or 0. -/
def limitDue (b : BotState) (ci : Nat) : Int :=
  match b.chans[ci]? with
  | none => 0
  | some c =>
      if get b (some c) .dynamicLimit = 0 ∨ !c.iAmOpped ∨ !c.whoDone ∨
          maxRosterSize ≤ c.roster.length ∨ !c.liveKnown then 0
      else
        let want := max 1 (min 99999 (c.roster.length + get b (some c) .limitGap))
        -- off by less than 2: no MODE every time someone joins
        if Chanlive.liveHas c (byte 'l') ∧ (c.liveLimit - want).natAbs < 2 then 0 else want

/-- `exec_limit`. -/
def execLimit (b : BotState) (ci : Nat) : BotState :=
  match b.chans[ci]? with
  | none => b
  | some c =>
      let want := limitDue b ci
      let again := recentKey b c.name (str "limit") [] recentModeMs
      if want = 0 ∨ b.now - c.enfLastLimit < get b (some c) .limitDelay then b
      else if again.1 then again.2
      else
        let b := ircPrintf again.2 (str "MODE " ++ c.name ++ str " +l " ++ dec want ++ crlf)
        (chanEvent b c.name (str "limit") c.name (str "+l " ++ dec want)).2

/-! ### The election of a job -/

/-- `act_job`. -/
def actJob : JobAct → Nat
  | .deop | .dehalf | .reop => jobOp
  | .kick => jobKick
  | .banNuh | .banMask | .unban => jobBan
  | .mode => jobMode
  | .limit => jobLimit

def jobExec (b : BotState) (ci : Nat) (act : JobAct) (target reason : Str) : BotState :=
  match act with
  | .deop => actDeop b ci target reason false
  | .dehalf => actDeop b ci target reason true
  | .reop => actReop b ci target reason
  | .kick => actKick b ci target reason
  | .banNuh => execBanNuh b ci target reason
  | .banMask => actBan b ci target reason
  | .unban => actUnban b ci target reason
  | .mode => execMode b ci
  | .limit => execLimit b ci

/-- `in_chan`. -/
def inChan (b : BotState) (chan : Str) : Option Nat :=
  (find b chan).filter fun ci => (b.chans.getD ci {}).status == .inside

section Submit

variable (sha256 : Str → Str)

/-- `job_submit`: done now by the holder of the job, queued by its backups. False
where this bot takes no part, or the queue is full. -/
def jobSubmit (b : BotState) (ci : Nat) (act : JobAct) (target reason : Str) : Bool × BotState :=
  let rank := dealRank sha256 b ci (actJob act)
  let name := (b.chans.getD ci {}).name
  if rank < 0 then (false, b)
  else if rank = 0 then (true, jobExec b ci act target reason)
  else if b.jobs.any fun j => j.used && j.act == act && eqIc j.chan name && eqIc j.target target then
    (true, b)
  else
    match b.jobs.findIdx? fun j => !j.used with
    | none => (false, b)
    | some i =>
        let job : PendingJob :=
          { used := true, act, chan := name, target := trunc target maxMaskLen
            reason := trunc reason (banReasonMax + 1), createdMs := b.monoMs }
        (true, { b with jobs := b.jobs.set i job })

/-- `request_kick` and `request_deop`. -/
def requestMember (b : BotState) (act : JobAct) (chan nick reason : Str) : Bool × BotState :=
  match inChan b chan with
  | some ci => if validNick b nick then jobSubmit sha256 b ci act nick reason else (false, b)
  | none => (false, b)

def requestKick (b : BotState) (chan nick reason : Str) : Bool × BotState :=
  requestMember sha256 b .kick chan nick reason

def requestDeop (b : BotState) (chan nick reason : Str) : Bool × BotState :=
  requestMember sha256 b .deop chan nick reason

/-- `request_ban`: `kickToo` asks for the kick of that nick as well. -/
def requestBan (b : BotState) (chan nuh reason : Str) (kickToo : Bool) : Bool × BotState :=
  match inChan b chan with
  | none => (false, b)
  | some ci =>
      if maxMaskLen ≤ nuh.length then (false, b)
      else
        match (nuhNick nuh).filter (validNick b) with
        | none => (false, b)
        | some nick =>
            let banned := jobSubmit sha256 b ci .banNuh nuh reason
            if kickToo then (banned.1, (jobSubmit sha256 banned.2 ci .kick nick reason).2)
            else banned

end Submit

/-! ### What the walk reports -/

/-- A member's verdict, and the state it leaves, in terms of the cached ones. -/
theorem entryVerdict_memberVerdict (b : BotState) (ci i : Nat) (e f : RosterEntry) :
    entryVerdict (memberVerdict b ci i e).2 f = entryVerdict b f := by
  have hchans (s : BotState) (g : Chan → Chan) :
      entryVerdict (withChan s ci g) f = entryVerdict s f := by
    rw [entryVerdict_eq, entryVerdict_eq]
    rfl
  unfold memberVerdict
  rw [hchans, entryAuthorised_again]

/-- The loop finds the first member that is authorised and that the mask matches. -/
theorem allowedLoop_fst (ci : Nat) (mask : Str) (es : List RosterEntry) :
    ∀ (b : BotState) (i : Nat), (allowedLoop ci mask b i es).1 =
      (es.find? fun e => entryVerdict b e && wildcardMatch mask e.hostmask).map fun e =>
        str "member " ++ e.nick := by
  induction es with
  | nil => exact fun b i => rfl
  | cons e es ih =>
      intro b i
      have hverdict : (memberVerdict b ci i e).1 = entryVerdict b e := (memberVerdict_eq b ci i e).1
      have hrest : (fun f => entryVerdict (memberVerdict b ci i e).2 f &&
          wildcardMatch mask f.hostmask) = fun f => entryVerdict b f &&
            wildcardMatch mask f.hostmask :=
        funext fun f => by rw [entryVerdict_memberVerdict]
      unfold allowedLoop
      dsimp only
      rw [hverdict, List.find?_cons]
      cases entryVerdict b e && wildcardMatch mask e.hostmask with
      | true => rfl
      | false => rw [if_neg (by simp), ih, hrest]

/-- **Filling the caches on the way changes no verdict of the walk.** -/
theorem allowedMembersFill_fst (b : BotState) (ci : Nat) (mask : Str) :
    (allowedMembersFill b ci mask).1 = allowedMembers b ci mask := by
  unfold allowedMembersFill allowedMembers
  cases b.chans[ci]? with
  | none => rfl
  | some c => exact allowedLoop_fst ci mask c.roster b 0

/-! ### What work leaves alone -/

/-- A member less the cached verdict. -/
def face (e : RosterEntry) : RosterEntry := { e with authorised := false, authGen := 0 }

/-- A channel less the cached verdicts and the flood windows. -/
def lessCaches (c : Chan) : Chan := { c with roster := c.roster.map face, flood := [] }

/-- The state less what work writes: the caches, the memory of what was done, what is queued and
sent, and the bans on record. -/
def core (b : BotState) : BotState :=
  { b with
    chans := b.chans.map lessCaches
    auth := {}, ircOut := [], named := [], link := {}, hubOut := [], chanEvent := {}
    enfRecent := [], enfRecentIdx := 0, cfgBans := [], cfgGen := 0, configDirty := false
    banTrack := [], offences := [], jobs := [] }

/-- The core, with the queue of jobs. -/
def coreJobs (b : BotState) : BotState := { core b with jobs := b.jobs }

/-- What leaves the core and the jobs alone leaves the core alone. -/
theorem core_of_coreJobs {b b' : BotState} (h : coreJobs b' = coreJobs b) : core b' = core b :=
  congrArg (fun s : BotState => { s with jobs := [] }) h

theorem jobs_of_coreJobs {b b' : BotState} (h : coreJobs b' = coreJobs b) : b'.jobs = b.jobs := by
  have hjobs : (coreJobs b').jobs = (coreJobs b).jobs := by rw [h]
  exact hjobs

/-- A change of one channel that the core does not show. -/
theorem coreJobs_withChan (b : BotState) {ci : Nat} {f : Chan → Chan}
    (h : ∀ c, b.chans[ci]? = some c → lessCaches (f c) = lessCaches c) :
    coreJobs (withChan b ci f) = coreJobs b := by
  have hchans : (b.chans.modify ci f).map lessCaches = b.chans.map lessCaches := by
    refine List.ext_getElem? fun j => ?_
    rw [List.getElem?_map, List.getElem?_map, List.getElem?_modify]
    by_cases hj : ci = j
    · obtain rfl := hj
      cases hc : b.chans[ci]? with
      | none => rfl
      | some c => simp [h c hc]
    · cases b.chans[j]? with
      | none => rfl
      | some c => simp [hj]
  unfold coreJobs core withChan
  dsimp only
  rw [hchans]

/-- A verdict that is looked up changes the cache alone. -/
theorem face_filled (b : BotState) (e : RosterEntry) : face (entryAuthorised b e).2.1 = face e := by
  unfold entryAuthorised
  split
  · rfl
  · dsimp only
    split <;> rfl

/-- The member of a nick is a member. -/
theorem getElem?_of_member {c : Chan} {nick : Str} {i : Nat} {e : RosterEntry}
    (h : member c nick = some (i, e)) : c.roster[i]? = some e := by
  unfold member at h
  simp only [Option.bind_eq_some_iff, Option.map_eq_some_iff, Prod.mk.injEq] at h
  obtain ⟨j, -, f, hf, rfl, rfl⟩ := h
  exact hf

/-- **Filling a cached verdict leaves the core as it is.** -/
theorem coreJobs_memberVerdict {b : BotState} {ci i : Nat} {c : Chan} {e : RosterEntry}
    (hc : b.chans[ci]? = some c) (he : c.roster[i]? = some e) :
    coreJobs (memberVerdict b ci i e).2 = coreJobs b := by
  have hfill : coreJobs (entryAuthorised b e).2.2 = coreJobs b ∧
      (entryAuthorised b e).2.2.chans = b.chans := by
    unfold entryAuthorised
    split
    · exact ⟨rfl, rfl⟩
    · exact ⟨rfl, rfl⟩
  unfold memberVerdict
  dsimp only
  refine Eq.trans (coreJobs_withChan _ ?_) hfill.1
  intro c' hc'
  obtain rfl := Option.some_inj.mp ((hfill.2 ▸ hc').symm.trans hc)
  unfold lessCaches
  dsimp only
  rw [List.map_set, face_filled]
  congr 1
  refine List.ext_getElem? fun k => ?_
  by_cases hk : i = k
  · obtain rfl := hk
    rw [List.getElem?_set_self (by simpa using (List.getElem?_eq_some_iff.mp he).1),
      List.getElem?_map, he, Option.map_some]
  · rw [List.getElem?_set_ne hk]

/-- A walk over the members goes on with the rest of them. -/
theorem memberVerdict_rest {b : BotState} {ci i : Nat} {c : Chan} {e : RosterEntry}
    {es : List RosterEntry} (hc : b.chans[ci]? = some c) (hdrop : c.roster.drop i = e :: es) :
    ∃ c', (memberVerdict b ci i e).2.chans[ci]? = some c' ∧ c'.roster.drop (i + 1) = es := by
  refine ⟨{ c with roster := c.roster.set i (entryAuthorised b e).2.1 }, ?_, ?_⟩
  · have hsame : (entryAuthorised b e).2.2.chans = b.chans := by
      unfold entryAuthorised
      split <;> rfl
    unfold memberVerdict withChan
    dsimp only
    rw [List.getElem?_modify, hsame]
    simp [hc]
  · dsimp only
    rw [List.drop_set_of_lt (by omega), ← List.drop_drop, hdrop]
    rfl

/-- A line that is queued is none of the core. -/
@[simp] theorem coreJobs_ircPrintf (b : BotState) (line : Str) :
    coreJobs (ircPrintf b line) = coreJobs b := by
  obtain ⟨out, heq, -⟩ := ircPrintf_eq b line
  rw [heq]
  rfl

@[simp] theorem coreJobs_ircPrintfNamed (b : BotState) (x : Named) :
    coreJobs (ircPrintfNamed b x) = coreJobs b := by
  obtain ⟨out, names, heq, -⟩ := ircPrintfNamed_eq b x
  rw [heq]
  rfl

@[simp] theorem coreJobs_chanEvent (b : BotState) (chan action target detail : Str) :
    coreJobs (chanEvent b chan action target detail).2 = coreJobs b := by
  obtain ⟨link, out, lim, heq⟩ := chanEvent_eq b chan action target detail
  rw [heq]
  rfl

/-- Nor is what is remembered of an act. -/
@[simp] theorem coreJobs_recentKey (b : BotState) (name act target : Str) (windowMs : Int) :
    coreJobs (recentKey b name act target windowMs).2 = coreJobs b := by
  obtain ⟨ring, idx, heq⟩ := recentKey_eq b name act target windowMs
  rw [heq]
  rfl

/-- Mode changes are queued, and the core stays. -/
@[simp] theorem coreJobs_modeSync (b : BotState) (ci : Nat) (skipLimit dry known : Bool) :
    coreJobs (Chanlive.modeSync b ci skipLimit dry known).2 = coreJobs b := by
  obtain ⟨out, heq⟩ := Chanlive.modeSync_eq b ci skipLimit dry known
  rw [heq]
  rfl

/-- A ban on record is none of the core. -/
theorem coreJobs_botBan (b : BotState) (chan mask : Str) (expires : Int)
    (flags reason : Option Str) (del : Bool) :
    coreJobs (botBan b chan mask expires flags reason del).2 = coreJobs b := by
  have hpush (s : BotState) (x : CfgBan) : coreJobs (pushBan s x) = coreJobs s := by
    have hlines (line : Str) : coreJobs (HubPush.pushLines s line).2 = coreJobs s := by
      unfold HubPush.pushLines
      split
      · rfl
      · rw [(sameButLink_sendFrame s cmdConfigPush line).eq]
        rfl
    unfold pushBan
    split
    · rfl
    · rename_i line _
      split
      · rename_i s' heq
        have hsent := hlines line
        rw [heq] at hsent
        refine Eq.trans ?_ hsent
        unfold unmark
        split <;> rfl
      · rename_i s' heq
        have hsent := hlines line
        rwa [heq] at hsent
  unfold botBan
  split
  · rfl
  · rename_i x _
    rcases banStore_cases b x with hsame | ⟨bans, -, hstore⟩
    · rw [hsame]
    · rw [hstore]
      have hpushed := hpush { b with cfgBans := bans, cfgGen := b.cfgGen + 1 } x
      dsimp only
      generalize pushBan { b with cfgBans := bans, cfgGen := b.cfgGen + 1 } x = s at hpushed
      exact hpushed

theorem coreJobs_allowedLoop {ci : Nat} {mask : Str} (es : List RosterEntry) :
    ∀ {b : BotState} {i : Nat} {c : Chan}, b.chans[ci]? = some c → c.roster.drop i = es →
      coreJobs (allowedLoop ci mask b i es).2 = coreJobs b := by
  induction es with
  | nil => exact fun _ _ => rfl
  | cons e es ih =>
      intro b i c hc hdrop
      have he : c.roster[i]? = some e := by
        rw [← Nat.add_zero i, ← List.getElem?_drop, hdrop]
        rfl
      have hseen := coreJobs_memberVerdict hc he
      obtain ⟨c', hc', hdrop'⟩ := memberVerdict_rest hc hdrop
      unfold allowedLoop
      dsimp only
      split
      · exact hseen
      · exact (ih hc' hdrop').trans hseen

/-- A walk through the members fills the cache. -/
@[simp] theorem coreJobs_allowedMembersFill (b : BotState) (ci : Nat) (mask : Str) :
    coreJobs (allowedMembersFill b ci mask).2 = coreJobs b := by
  unfold allowedMembersFill
  split
  · rfl
  · rename_i c hc
    exact coreJobs_allowedLoop c.roster hc List.drop_zero

theorem coreJobs_autoBanLoop (ci : Nat) (nuh : Str) (order : List Int) :
    ∀ b : BotState, coreJobs (autoBanLoop ci nuh b order).2 = coreJobs b := by
  have hallowed (b : BotState) (m : Str) : coreJobs (banAllowed b ci m).2 = coreJobs b := by
    unfold banAllowed
    split
    · rfl
    · exact coreJobs_allowedMembersFill b ci m
  induction order with
  | nil => exact fun b => rfl
  | cons typ order ih =>
      intro b
      unfold autoBanLoop
      split
      · exact ih b
      · rename_i m _
        dsimp only
        split
        · exact hallowed b m
        · rw [ih, hallowed]

/-- To choose a mask changes nothing but the caches. -/
theorem coreJobs_autoBanMask (b : BotState) (ci : Nat) (nuh : Str) :
    coreJobs (autoBanMask b ci nuh).2 = coreJobs b := coreJobs_autoBanLoop ci nuh _ b

/-- Nor does to look somebody up. -/
@[simp] theorem coreJobs_chanNuhAuthorised (b : BotState) (ci : Nat) (nuh : Str) :
    coreJobs (chanNuhAuthorised b ci nuh).2 = coreJobs b := by
  unfold chanNuhAuthorised
  split
  · rfl
  · split
    · rfl
    · split
      · rename_i i e hmember
        obtain ⟨hfound, -⟩ := Option.filter_eq_some_iff.mp hmember
        obtain ⟨c, hc, hc'⟩ := Option.bind_eq_some_iff.mp hfound
        exact coreJobs_memberVerdict hc (getElem?_of_member hc')
      · rfl

@[simp] theorem coreJobs_trackGet (b : BotState) (chan mask : Str) (t : Int) :
    coreJobs (trackGet b chan mask t).2 = coreJobs b := by
  unfold trackGet
  dsimp only
  split <;> rfl

@[simp] theorem coreJobs_withTrack (b : BotState) (ti : Nat) (f : BanTrack → BanTrack) :
    coreJobs (withTrack b ti f) = coreJobs b := rfl

/-- A ban is looked up in the memory of bans, and may be widened there. -/
@[simp] theorem coreJobs_checkOverlap (b : BotState) (ti : Nat) (mask : Str) :
    coreJobs (checkOverlap b ti mask) = coreJobs b := by
  unfold checkOverlap
  split <;> rfl

@[simp] theorem coreJobs_offence (b : BotState) (chan nuh : Str) :
    coreJobs (offence b chan nuh).2 = coreJobs b := rfl

/-! #### One act -/

/-- A deop is queued and noted. -/
theorem coreJobs_actDeop (b : BotState) (ci : Nat) (nick why : Str) (half : Bool) :
    coreJobs (actDeop b ci nick why half) = coreJobs b := by
  unfold actDeop
  cases hc : b.chans[ci]? with
  | none => rfl
  | some c =>
      dsimp only
      -- which of the two flags is looked at does not matter
      generalize (if half then str "dehalf" else str "deop") = act
      generalize (if half then str " -h " else str " -o ") = mode
      split
      · rfl
      · cases hmember : member c nick with
        | none => rfl
        | some p =>
            obtain ⟨i, e⟩ := p
            dsimp only
            generalize (!(if half then e.isHalfop else e.isOp)) = flag
            split
            · rfl
            · have hverdict := coreJobs_memberVerdict hc (getElem?_of_member hmember)
              generalize memberVerdict b ci i e = verdict at hverdict ⊢
              obtain ⟨ok, b₁⟩ := verdict
              cases ok with
              | true => exact hverdict
              | false =>
                  dsimp only
                  have hkey := coreJobs_recentKey b₁ c.name act e.nick recentActMs
                  generalize recentKey b₁ c.name act e.nick recentActMs = again at hkey ⊢
                  obtain ⟨seen, b₂⟩ := again
                  cases seen with
                  | true => exact hkey.trans hverdict
                  | false =>
                      refine Eq.trans ?_ (hkey.trans hverdict)
                      simp

theorem coreJobs_actReop (b : BotState) (ci : Nat) (nick why : Str) :
    coreJobs (actReop b ci nick why) = coreJobs b := by
  unfold actReop
  cases hc : b.chans[ci]? with
  | none => rfl
  | some c =>
      dsimp only
      split
      · rfl
      · cases hmember : member c nick with
        | none => rfl
        | some p =>
            obtain ⟨i, e⟩ := p
            dsimp only
            split
            · rfl
            · have hverdict := coreJobs_memberVerdict hc (getElem?_of_member hmember)
              generalize memberVerdict b ci i e = verdict at hverdict ⊢
              obtain ⟨ok, b₁⟩ := verdict
              cases ok with
              | false => exact hverdict
              | true =>
                  dsimp only
                  have hkey := coreJobs_recentKey b₁ c.name (str "reop") e.nick recentActMs
                  generalize recentKey b₁ c.name (str "reop") e.nick recentActMs = again at hkey ⊢
                  obtain ⟨seen, b₂⟩ := again
                  cases seen with
                  | true => exact hkey.trans hverdict
                  | false =>
                      refine Eq.trans ?_ (hkey.trans hverdict)
                      simp

/-- A kick is queued and noted. -/
theorem coreJobs_actKick (b : BotState) (ci : Nat) (nick reason : Str) :
    coreJobs (actKick b ci nick reason) = coreJobs b := by
  unfold actKick
  split
  · rfl
  · rename_i c hc
    split
    · rfl
    · split
      · rfl
      · rename_i i e hmember
        have hverdict := coreJobs_memberVerdict hc (getElem?_of_member hmember)
        dsimp only
        split_ifs <;> simp [hverdict]

/-- A ban is queued and noted. -/
theorem coreJobs_actBan (b : BotState) (ci : Nat) (mask why : Str) :
    coreJobs (actBan b ci mask why) = coreJobs b := by
  unfold actBan
  split
  · rfl
  · split
    · rfl
    · split
      · rfl
      · dsimp only
        split_ifs <;> simp

theorem coreJobs_actUnban (b : BotState) (ci : Nat) (mask why : Str) :
    coreJobs (actUnban b ci mask why) = coreJobs b := by
  unfold actUnban
  split
  · rfl
  · split
    · rfl
    · dsimp only
      split_ifs <;> simp

/-- A ban of a person, with the choice of its mask. -/
theorem coreJobs_execBanNuh (b : BotState) (ci : Nat) (nuh reason : Str) :
    coreJobs (execBanNuh b ci nuh reason) = coreJobs b := by
  unfold execBanNuh
  split
  · rename_i nick c _ hc
    split
    · rfl
    · have hentry : coreJobs ((member c nick).elim (false, b) fun (i, e) =>
          memberVerdict b ci i e).2 = coreJobs b := by
        cases hmember : member c nick with
        | none => rfl
        | some p => exact coreJobs_memberVerdict hc (getElem?_of_member hmember)
      dsimp only
      generalize (member c nick).elim (false, b) (fun (i, e) => memberVerdict b ci i e) = entry at *
      have hauto := (coreJobs_autoBanMask (chanNuhAuthorised entry.2 ci nuh).2 ci nuh).trans
        (coreJobs_chanNuhAuthorised entry.2 ci nuh)
      split
      · exact hentry
      · split
        · rw [coreJobs_chanNuhAuthorised, hentry]
        · split
          · rw [hauto, hentry]
          · rw [coreJobs_actBan]
            split
            · rw [coreJobs_botBan, hauto, hentry]
            · rw [hauto, hentry]
  · rfl

theorem coreJobs_execMode (b : BotState) (ci : Nat) :
    coreJobs (execMode b ci) = coreJobs b := by
  unfold execMode
  split
  · rfl
  · rename_i c _
    split
    · rfl
    · dsimp only
      split
      · rfl
      · rfl
      · split
        · exact coreJobs_recentKey b _ _ _ _
        · have hsync := (coreJobs_modeSync
            (recentKey b c.name (str "moderevert") [] recentModeMs).2 ci
            (get b (some c) .dynamicLimit ≠ 0) false true).trans (coreJobs_recentKey b _ _ _ _)
          split
          · rename_i heq
            rwa [heq] at hsync
          · rename_i heq
            rwa [heq] at hsync
          · rename_i heq
            rw [heq] at hsync
            rwa [coreJobs_chanEvent]

theorem coreJobs_execLimit (b : BotState) (ci : Nat) :
    coreJobs (execLimit b ci) = coreJobs b := by
  unfold execLimit
  split
  · rfl
  · dsimp only
    split_ifs <;> simp

/-- **A job that is done leaves the core and the other jobs alone.** -/
theorem coreJobs_jobExec (b : BotState) (ci : Nat) (act : JobAct) (target reason : Str) :
    coreJobs (jobExec b ci act target reason) = coreJobs b := by
  cases act with
  | deop => exact coreJobs_actDeop b ci target reason false
  | dehalf => exact coreJobs_actDeop b ci target reason true
  | reop => exact coreJobs_actReop b ci target reason
  | kick => exact coreJobs_actKick b ci target reason
  | banNuh => exact coreJobs_execBanNuh b ci target reason
  | banMask => exact coreJobs_actBan b ci target reason
  | unban => exact coreJobs_actUnban b ci target reason
  | mode => exact coreJobs_execMode b ci
  | limit => exact coreJobs_execLimit b ci

/-! #### What the core shows -/

theorem core_withChan (b : BotState) {ci : Nat} {f : Chan → Chan}
    (h : ∀ c, b.chans[ci]? = some c → lessCaches (f c) = lessCaches c) :
    core (withChan b ci f) = core b := core_of_coreJobs (coreJobs_withChan b h)

theorem core_memberVerdict {b : BotState} {ci i : Nat} {c : Chan} {e : RosterEntry}
    (hc : b.chans[ci]? = some c) (he : c.roster[i]? = some e) :
    core (memberVerdict b ci i e).2 = core b := core_of_coreJobs (coreJobs_memberVerdict hc he)

@[simp] theorem core_ircPrintf (b : BotState) (line : Str) : core (ircPrintf b line) = core b :=
  core_of_coreJobs (coreJobs_ircPrintf b line)

@[simp] theorem core_chanEvent (b : BotState) (chan action target detail : Str) :
    core (chanEvent b chan action target detail).2 = core b :=
  core_of_coreJobs (coreJobs_chanEvent b chan action target detail)

@[simp] theorem core_chanNuhAuthorised (b : BotState) (ci : Nat) (nuh : Str) :
    core (chanNuhAuthorised b ci nuh).2 = core b :=
  core_of_coreJobs (coreJobs_chanNuhAuthorised b ci nuh)

@[simp] theorem core_offence (b : BotState) (chan nuh : Str) :
    core (offence b chan nuh).2 = core b := core_of_coreJobs (coreJobs_offence b chan nuh)

/-- So it leaves the core alone. -/
theorem core_jobExec (b : BotState) (ci : Nat) (act : JobAct) (target reason : Str) :
    core (jobExec b ci act target reason) = core b :=
  core_of_coreJobs (coreJobs_jobExec b ci act target reason)

/-! #### Work handed to the election -/

section Submit

variable (sha256 : Str → Str)

/-- **No work changes the core**, done now or queued. -/
theorem core_jobSubmit (b : BotState) (ci : Nat) (act : JobAct) (target reason : Str) :
    core (jobSubmit sha256 b ci act target reason).2 = core b := by
  unfold jobSubmit
  dsimp only
  split
  · rfl
  · split
    · exact core_jobExec b ci act target reason
    · split
      · rfl
      · split <;> rfl

/-- A request about a member is done, waits, or is dropped. -/
theorem core_requestMember (b : BotState) (act : JobAct) (chan nick reason : Str) :
    core (requestMember sha256 b act chan nick reason).2 = core b := by
  unfold requestMember
  split
  · split
    · exact core_jobSubmit sha256 b _ act nick reason
    · rfl
  · rfl

/-- So is a request for a ban. -/
theorem core_requestBan (b : BotState) (chan nuh reason : Str) (kickToo : Bool) :
    core (requestBan sha256 b chan nuh reason kickToo).2 = core b := by
  unfold requestBan
  split
  · rfl
  · split
    · rfl
    · split
      · rfl
      · dsimp only
        split
        · rw [core_jobSubmit, core_jobSubmit]
        · exact core_jobSubmit sha256 b _ .banNuh nuh reason

end Submit

/-! ### The bot's own standing -/

/-- The bot's own standing in a channel. -/
structure Membership where
  name : Str
  status : ChanStatus
  opped : Bool
  /-- The live modes are known. -/
  known : Bool
deriving DecidableEq, Repr

def membership (c : Chan) : Membership := ⟨c.name, c.status, c.iAmOpped, c.liveKnown⟩

/-- The bot's standing on IRC: its channels, its link to the server, its nick and the
nicks it has asked for. -/
structure Standing where
  channels : List Membership
  connected : Bool
  authed : Bool
  currentNick : Str
  targetNick : Str
  nickAsked : List Str
deriving DecidableEq, Repr

def standing (b : BotState) : Standing :=
  ⟨b.chans.map membership, b.connected, b.authed, b.currentNick, b.targetNick, b.nickAsked⟩

/-- A channel may change in all but who is in it. -/
theorem standing_withChan (b : BotState) (ci : Nat) {f : Chan → Chan}
    (h : ∀ c, membership (f c) = membership c) : standing (withChan b ci f) = standing b := by
  have hchans : (b.chans.modify ci f).map membership = b.chans.map membership := by
    refine List.ext_getElem? fun j => ?_
    simp only [List.getElem?_map, List.getElem?_modify, Option.map_eq_map, Option.map_map]
    congr 1
    funext c
    by_cases hj : ci = j <;> simp [hj, h]
  exact congrArg (Standing.mk · b.connected b.authed b.currentNick b.targetNick b.nickAsked) hchans

/-- What the core shows, work leaves alone. -/
theorem standing_of_core {b b' : BotState} (h : core b' = core b) : standing b' = standing b := by
  have hview : ∀ s : BotState, standing (core s) = standing s := by
    intro s
    unfold standing core
    dsimp only
    rw [List.map_map]
    rfl
  rw [← hview, h, hview]

@[simp] theorem standing_ircPrintf (b : BotState) (line : Str) :
    standing (ircPrintf b line) = standing b := standing_of_core (core_ircPrintf b line)

end IrcBot.Jobs
