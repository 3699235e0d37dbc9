/-
# Users and their masks under local commands (`commands.rs`)

Eight commands add, revive, bury, rename and re-key records in two tables that refer to
each other. A `Sound` directory gives no key to two active users and has no active mask
without an active user.

* `Run.sound` — commands keep a directory sound, and no record gets an older stamp.
-/
import IrcBot.Lib.Keyed
import IrcBot.UserCommands

namespace IrcBot.UserTable

open Cstr Crypto UserCommands Lib.Keyed

variable (P : Primitives)

/-! ### Sound directories -/

/-- The public key an active user signs in with. -/
def heldKey (u : UserRecord) : Option Str :=
  if u.isActive && u.hasPubkey then pubkeyB64Decode P u.pubkeyB64 else none

structure Sound (d : Directory) : Prop where
  keys : (d.users.filterMap (heldKey P)).Nodup
  owned : ∀ m ∈ d.masks, m.isActive = true → ∃ u ∈ d.users, u.isActive = true ∧ u.uuid = m.uuid
  uuids : (d.users.map (·.uuid)).Nodup
  users_le : d.users.length ≤ maxUserRecords
  masks_le : d.masks.length ≤ maxUserMasks

/-- The same record, with no older stamp. -/
def UserAges (u u' : UserRecord) : Prop := u'.uuid = u.uuid ∧ u.timestamp ≤ u'.timestamp

def MaskAges (m m' : MaskRecord) : Prop :=
  m'.uuid = m.uuid ∧ m'.mask = m.mask ∧ m.timestamp ≤ m'.timestamp

/-- Every record of `d` is still in its place in `d'`, with no older stamp. -/
structure NoOlder (d d' : Directory) : Prop where
  users : Kept UserAges d.users d'.users
  masks : Kept MaskAges d.masks d'.masks

theorem heldKey_eq_some {u : UserRecord} {k : Str} :
    heldKey P u = some k ↔
      u.isActive = true ∧ u.hasPubkey = true ∧ pubkeyB64Decode P u.pubkeyB64 = some k := by
  simp [heldKey, and_assoc]

/-- A key has one spelling. -/
theorem b64Encode_of_decode {s k : Str} (h : pubkeyB64Decode P s = some k) : P.b64Encode k = s := by
  unfold pubkeyB64Decode at h
  dsimp only at h
  split at h
  · cases h
  · split at h
    · cases h
    · obtain ⟨key, -, h⟩ := Option.bind_eq_some_iff.mp h
      split at h
      · cases h
      · rename_i hcanonical
        split at h
        · cases h
        · obtain rfl := Option.some.inj h
          simp only [not_or, not_not] at hcanonical
          exact hcanonical.2

/-- A key that is free is held by nobody but `me`. -/
theorem held_of_free {d : Directory} {me : Option Nat} {key k : Str} (h : KeyFree P d me key)
    (hk : pubkeyB64Decode P key = some k) (hmem : k ∈ d.users.filterMap (heldKey P)) :
    ∃ i u, me = some i ∧ d.users[i]? = some u ∧ heldKey P u = some k := by
  obtain ⟨u, hu, hheld⟩ := List.mem_filterMap.mp hmem
  obtain ⟨hactive, hhas, hdecode⟩ := (heldKey_eq_some P).mp hheld
  obtain ⟨i, hi⟩ := List.mem_iff_getElem?.mp hu
  have hspelt : u.pubkeyB64 = key :=
    (b64Encode_of_decode P hdecode).symm.trans (b64Encode_of_decode P hk)
  by_cases hme : some i = me
  · exact ⟨i, u, hme.symm, hi, hheld⟩
  · exact absurd hspelt (h.free i u hi hme hactive hhas)

/-! ### Stamps -/

theorem UserAges.refl (u : UserRecord) : UserAges u u := ⟨rfl, le_refl _⟩

theorem MaskAges.refl (m : MaskRecord) : MaskAges m m := ⟨rfl, rfl, le_refl _⟩

theorem UserAges.trans {u₁ u₂ u₃ : UserRecord} (h : UserAges u₁ u₂) (h' : UserAges u₂ u₃) :
    UserAges u₁ u₃ := ⟨h'.1.trans h.1, h.2.trans h'.2⟩

theorem MaskAges.trans {m₁ m₂ m₃ : MaskRecord} (h : MaskAges m₁ m₂) (h' : MaskAges m₂ m₃) :
    MaskAges m₁ m₃ := ⟨h'.1.trans h.1, h'.2.1.trans h.2.1, h.2.2.trans h'.2.2⟩

theorem NoOlder.refl (d : Directory) : NoOlder d d :=
  ⟨kept_refl UserAges.refl, kept_refl MaskAges.refl⟩

theorem NoOlder.trans {d₁ d₂ d₃ : Directory} (h : NoOlder d₁ d₂) (h' : NoOlder d₂ d₃) :
    NoOlder d₁ d₃ :=
  ⟨h.users.trans (fun _ _ _ => UserAges.trans) h'.users,
    h.masks.trans (fun _ _ _ => MaskAges.trans) h'.masks⟩

/-- **No command gives a record an older stamp.** -/
theorem NoOlder.edit {b : BotState} {a : Args} {d d' : Directory} {c : Command}
    (h : Edit P b a d c d') : NoOlder d d' := by
  have hnext (ts : Int) : ts ≤ lwwNextTs b.now ts := Int.le_of_lt (lwwNextTs_gt b.now ts)
  cases h with
  | stay => exact .refl d
  | addUser => exact ⟨kept_concat UserAges.refl, kept_concat MaskAges.refl⟩
  | delUser =>
      refine ⟨kept_modify UserAges.refl fun u => ⟨rfl, hnext _⟩, kept_map fun m => ?_⟩
      split
      · exact ⟨rfl, rfl, hnext _⟩
      · exact .refl m
  | revive =>
      exact ⟨kept_refl UserAges.refl, kept_modify MaskAges.refl fun m => ⟨rfl, rfl, hnext _⟩⟩
  | addMask => exact ⟨kept_refl UserAges.refl, kept_concat MaskAges.refl⟩
  | delMask =>
      exact ⟨kept_refl UserAges.refl, kept_modify MaskAges.refl fun m => ⟨rfl, rfl, hnext _⟩⟩
  | setKey => exact ⟨kept_modify UserAges.refl fun u => ⟨rfl, hnext _⟩, kept_refl MaskAges.refl⟩
  | renameUser => exact ⟨kept_modify UserAges.refl fun u => ⟨rfl, hnext _⟩, kept_refl MaskAges.refl⟩
  | ownNick | renameBot | addBot | delBot =>
      exact ⟨kept_refl UserAges.refl, kept_refl MaskAges.refl⟩

/-! ### Keys and owners -/

/-- A change of one user that leaves the uuid alone keeps the keys apart, if the key it then
holds was its own or nobody's, and the masks owned, if it stays active. -/
theorem Sound.modifyUser {d : Directory} {f : UserRecord → UserRecord} {ui : Nat}
    (h : Sound P d) (huuid : ∀ u, (f u).uuid = u.uuid) (hactive : ∀ u, (f u).isActive = u.isActive)
    (hkey : ∀ u k, d.users[ui]? = some u → heldKey P (f u) = some k →
      heldKey P u = some k ∨ k ∉ d.users.filterMap (heldKey P)) :
    Sound P { d with users := d.users.modify ui f } := by
  refine ⟨nodup_filterMap_modify h.keys hkey, fun m hm hma => ?_, ?_, ?_, h.masks_le⟩
  · obtain ⟨u, hu, hua, hum⟩ := h.owned m hm hma
    obtain ⟨i, hi⟩ := List.mem_iff_getElem?.mp hu
    by_cases hui : ui = i
    · refine ⟨f u, List.mem_iff_getElem?.mpr ⟨i, ?_⟩, (hactive u).trans hua, (huuid u).trans hum⟩
      simp [hi, hui]
    · exact ⟨u, List.mem_iff_getElem?.mpr ⟨i, by simp [hi, hui]⟩, hua, hum⟩
  · exact (Activity.map_modify_of_same d.users ui f (·.uuid) huuid).symm ▸ h.uuids
  · rw [List.length_modify]
    exact h.users_le

/-- One more user, with a mask. -/
theorem Sound.addUser {b : BotState} {a : Args} {u : UserRecord} {m : MaskRecord}
    (h : Sound P (directory b)) (hnew : NewUser P b a u m)
    (hfresh : ∀ v ∈ b.userRecords, v.uuid ≠ u.uuid) :
    Sound P { directory b with
      users := (directory b).users ++ [u], masks := (directory b).masks ++ [m] } := by
  refine ⟨nodup_filterMap_concat h.keys fun k hk hmem => ?_, fun m' hm' hma => ?_, ?_, ?_, ?_⟩
  · obtain ⟨i, v, ⟨⟩, -⟩ := held_of_free P hnew.key ((heldKey_eq_some P).mp hk).2.2 hmem
  · rcases List.mem_append.mp hm' with hm' | hm'
    · obtain ⟨v, hv, hva, hvm⟩ := h.owned m' hm' hma
      exact ⟨v, List.mem_append_left _ hv, hva, hvm⟩
    · obtain rfl := List.mem_singleton.mp hm'
      exact ⟨u, List.mem_append_right _ List.mem_cons_self, hnew.active, hnew.owns.symm⟩
  · rw [List.map_append]
    refine List.nodup_append.mpr ⟨h.uuids, List.nodup_singleton _, fun x hx y hy heq => ?_⟩
    obtain ⟨v, hv, rfl⟩ := List.mem_map.mp hx
    exact hfresh v hv (heq.trans (List.mem_singleton.mp hy))
  · rw [List.length_append]
    exact hnew.users_lt
  · rw [List.length_append]
    exact hnew.masks_lt

/-- A user is buried with all masks of the uuid. -/
theorem Sound.delUser {d : Directory} {now : Int} {ui : Nat} {u : UserRecord} (h : Sound P d)
    (hu : d.users[ui]? = some u) :
    Sound P { d with
      users := d.users.modify ui (buriedUser now)
      masks := d.masks.map fun m => if m.uuid == u.uuid then buriedMask now m else m } := by
  refine ⟨nodup_filterMap_modify h.keys fun x k _ hk => ?_, fun m hm hma => ?_, ?_, ?_, ?_⟩
  · exact absurd ((heldKey_eq_some P).mp hk).1 Bool.false_ne_true
  · obtain ⟨m₀, hm₀, rfl⟩ := List.mem_map.mp hm
    split at hma
    · exact absurd hma Bool.false_ne_true
    · rename_i hother
      obtain ⟨v, hv, hva, hvm⟩ := h.owned m₀ hm₀ hma
      obtain ⟨i, hi⟩ := List.mem_iff_getElem?.mp hv
      -- the owner is another user, since the uuid is another
      have hne : ui ≠ i := by
        rintro rfl
        obtain rfl := Option.some.inj (hu.symm.trans hi)
        exact hother (beq_iff_eq.mpr hvm.symm)
      rw [if_neg hother]
      exact ⟨v, List.mem_iff_getElem?.mpr ⟨i, by simp [hi, hne]⟩, hva, hvm⟩
  · exact (Activity.map_modify_of_same d.users ui (buriedUser now) (·.uuid) fun _ => rfl).symm ▸ h.uuids
  · rw [List.length_modify]
    exact h.users_le
  · rw [List.length_map]
    exact h.masks_le

/-- Other masks, if those that are active then have an owner. -/
theorem Sound.withMasks {d : Directory} {masks : List MaskRecord} (h : Sound P d)
    (howned : ∀ m ∈ masks, m.isActive = true →
      m ∈ d.masks ∨ ∃ u ∈ d.users, u.isActive = true ∧ u.uuid = m.uuid)
    (hroom : masks.length ≤ maxUserMasks) : Sound P { d with masks := masks } :=
  ⟨h.keys, fun m hm hma => (howned m hm hma).elim (h.owned m · hma) id, h.uuids, h.users_le, hroom⟩

/-- The uuid that is drawn for a new user is nobody's. -/
def FreshUuid (b : BotState) (c : Command) (_ : Args) : Prop :=
  ∀ addAdmin uuid, c = .addUser addAdmin → genUuidV4 P b = some uuid →
    ∀ u ∈ b.userRecords, u.uuid ≠ uuid

/-- **Every command keeps a sound directory sound**, if the uuids it draws are fresh. -/
theorem Sound.edit {b : BotState} {a : Args} {c : Command} {d : Directory}
    (h : Sound P (directory b)) (hedit : Edit P b a (directory b) c d)
    (hfresh : FreshUuid P b c a) : Sound P d := by
  cases hedit with
  | stay => exact h
  | addUser hnew =>
      have hnew := newUser_of_ok P hnew
      exact h.addUser P hnew (hfresh _ _ rfl hnew.uuid)
  | delUser hu => exact h.delUser P hu
  | revive hu hactive howned =>
      refine h.withMasks P (fun m hm _ => ?_) ?_
      · rcases mem_modify hm with hm | ⟨m₀, hm₀, rfl⟩
        · exact .inl hm
        · exact .inr ⟨_, hu, hactive, (howned m₀ hm₀).symm⟩
      · rw [List.length_modify]
        exact h.masks_le
  | addMask hu hactive howned hroom =>
      refine h.withMasks P (fun m hm _ => ?_) ?_
      · rcases List.mem_append.mp hm with hm | hm
        · exact .inl hm
        · obtain rfl := List.mem_singleton.mp hm
          exact .inr ⟨_, hu, hactive, howned.symm⟩
      · rw [List.length_append]
        exact hroom
  | delMask =>
      refine h.withMasks P (fun m hm hma => ?_) ?_
      · rcases mem_modify hm with hm | ⟨m₀, -, rfl⟩
        · exact .inl hm
        · exact absurd hma Bool.false_ne_true
      · rw [List.length_modify]
        exact h.masks_le
  | setKey hkey =>
      refine h.modifyUser P (fun _ => rfl) (fun _ => rfl) fun u k hu hk => ?_
      obtain ⟨hactive, -, hdecode⟩ := (heldKey_eq_some P).mp hk
      by_cases hmem : k ∈ (directory b).users.filterMap (heldKey P)
      · obtain ⟨i, v, ⟨⟩, hv, hheld⟩ := held_of_free P hkey hdecode hmem
        obtain rfl := Option.some.inj (hu.symm.trans hv)
        exact .inl hheld
      · exact .inr hmem
  | renameUser => exact h.modifyUser P (fun _ => rfl) (fun _ => rfl) fun _ _ _ hk => .inl hk
  | ownNick | renameBot | addBot | delBot =>
      exact ⟨h.keys, h.owned, h.uuids, h.users_le, h.masks_le⟩

/-! ### Runs -/

theorem owned_idle {d : Directory} :
    (∀ m ∈ d.idle.masks, m.isActive = true →
      ∃ u ∈ d.idle.users, u.isActive = true ∧ u.uuid = m.uuid) ↔
        ∀ m ∈ d.masks, m.isActive = true → ∃ u ∈ d.users, u.isActive = true ∧ u.uuid = m.uuid := by
  constructor
  · intro h m hm hma
    obtain ⟨u', hu', hactive, huuid⟩ := h (idleMask m) (List.mem_map_of_mem hm) hma
    obtain ⟨u, hu, rfl⟩ := List.mem_map.mp hu'
    exact ⟨u, hu, hactive, huuid⟩
  · intro h m' hm' hma
    obtain ⟨m, hm, rfl⟩ := List.mem_map.mp hm'
    obtain ⟨u, hu, hactive, huuid⟩ := h m hm hma
    exact ⟨idleUser u, List.mem_map_of_mem hu, hactive, huuid⟩

theorem sound_idle {d : Directory} : Sound P d.idle ↔ Sound P d := by
  have hkeys : d.idle.users.filterMap (heldKey P) = d.users.filterMap (heldKey P) := by
    rw [Directory.idle, List.filterMap_map]
    rfl
  have huuids : d.idle.users.map (·.uuid) = d.users.map (·.uuid) := by
    rw [Directory.idle, List.map_map]
    rfl
  have husers : d.idle.users.length = d.users.length := List.length_map _
  have hmasks : d.idle.masks.length = d.masks.length := List.length_map _
  constructor
  · rintro ⟨hk, ho, hu, hul, hml⟩
    exact ⟨hkeys ▸ hk, owned_idle.mp ho, huuids ▸ hu, husers ▸ hul, hmasks ▸ hml⟩
  · rintro ⟨hk, ho, hu, hul, hml⟩
    exact ⟨hkeys ▸ hk, owned_idle.mpr ho, huuids ▸ hu, husers ▸ hul, hmasks ▸ hml⟩

theorem noOlder_of_idle {d d' : Directory} (h : d'.idle = d.idle) : NoOlder d d' := by
  constructor
  · intro i u hu
    have hmap : (d'.users.map idleUser)[i]? = (d.users.map idleUser)[i]? :=
      congrArg (fun d => (Directory.users d)[i]?) h
    rw [List.getElem?_map, List.getElem?_map, hu, Option.map_some] at hmap
    obtain ⟨u', hu', heq⟩ := Option.map_eq_some_iff.mp hmap
    have huuid : (idleUser u').uuid = (idleUser u).uuid := by rw [heq]
    have hts : (idleUser u').timestamp = (idleUser u).timestamp := by rw [heq]
    exact ⟨u', hu', huuid, hts.ge⟩
  · intro i m hm
    have hmap : (d'.masks.map idleMask)[i]? = (d.masks.map idleMask)[i]? :=
      congrArg (fun d => (Directory.masks d)[i]?) h
    rw [List.getElem?_map, List.getElem?_map, hm, Option.map_some] at hmap
    obtain ⟨m', hm', heq⟩ := Option.map_eq_some_iff.mp hmap
    have huuid : (idleMask m').uuid = (idleMask m).uuid := by rw [heq]
    have hmask : (idleMask m').mask = (idleMask m).mask := by rw [heq]
    have hts : (idleMask m').timestamp = (idleMask m).timestamp := by rw [heq]
    exact ⟨m', hm', huuid, hmask, hts.ge⟩

/-- **Local commands keep the user table sound**, over any run, and no record's stamp
decreases. -/
theorem Run.sound {b₀ b : BotState} (hrun : Run P (FreshUuid P) b₀ b)
    (h : Sound P (directory b₀)) :
    Sound P (directory b) ∧ NoOlder (directory b₀) (directory b) := by
  induction hrun with
  | start => exact ⟨h, .refl _⟩
  | @command b _ nick a c hfresh ih =>
      have hedit := edit_exec P b nick a c
      exact ⟨ih.1.edit P hedit hfresh, ih.2.trans (.edit P hedit)⟩
  | other _ hidle ih =>
      exact ⟨(sound_idle P).mp (hidle ▸ (sound_idle P).mpr ih.1),
        ih.2.trans (noOlder_of_idle hidle)⟩

/-- A bot without users, the first admin, and then none again. -/
def empty : BotState := { now := 100 }

def withAdmin : BotState :=
  (Command.addUser true).exec .clear empty (str "n")
    { a1 := some (str "alice"), a2 := some someKey, a3 := some (str "a!a@h") }

def without : BotState :=
  (Command.delUser (byte 'a')).exec .clear withAdmin (str "n") { a1 := some (str "Alice") }

theorem sound_without :
    without.maskRecords.map (fun m => (m.mask, m.isActive)) = [(str "a!a@h", false)] ∧
      Sound .clear (directory without) ∧ NoOlder (directory empty) (directory without) := by
  have hadd : Run .clear (FreshUuid .clear) empty withAdmin :=
    .command .start _ _ _ fun _ _ _ _ _ hu => absurd hu List.not_mem_nil
  have hdel : Run .clear (FreshUuid .clear) empty without :=
    .command hadd _ _ _ fun _ _ hc => nomatch hc
  have hempty : Sound .clear (directory empty) := by
    refine ⟨List.nodup_nil, fun _ hm => absurd hm List.not_mem_nil, List.nodup_nil, ?_, ?_⟩
    · exact Nat.zero_le _
    · exact Nat.zero_le _
  exact ⟨by decide, Run.sound .clear hdel hempty⟩

end IrcBot.UserTable
