/-
# The config file on the disk

`write_file` replaces the file through a temporary one. Whichever of its operations fails, wherever
the process is stopped, and if the power is lost, the file can be loaded, and is one that was saved.

* `load_written` — what one `write_file` has written.
* `file_whole` — whatever happened, the file is a whole one.
* `save_stands` — a save stands until the next one.
-/
import IrcBot.Restart

namespace IrcBot.ConfigFile

open Cstr Crypto Config Lib.AtomicFile

section

variable {T : FileTools} {password : Str} {s : FileState}

/-- What `write_file` may write for a state: its strings are UTF-8, and salt and iv are drawn. -/
structure Writes (T : FileTools) (password : Str) (s : FileState) (chunks : List Str) : Prop where
  savable : Savable T.toPrimitives s
  text : ∀ text, serialize T.toPrimitives s = some text → Lib.Utf8.Text text
  plan : ∃ salt iv, salt.length = saltSize ∧ iv.length = gcmIvLen ∧
    writeFile T password (some salt) (some iv) s = .replace chunks

/-- The file is never removed: there is a line in it. -/
theorem writeFile_ne_remove (salt iv : Option Str) : writeFile T password salt iv s ≠ .remove := by
  unfold writeFile
  split
  · simp
  · split
    · simp
    · rename_i text htext
      have hne : text.isEmpty = false := by
        rw [serialize_eq T.toPrimitives htext]
        rfl
      rw [hne, if_neg Bool.false_ne_true]
      split
      · split <;> simp
      · simp

/-- What stands in front of the ciphertext. -/
theorem split_file {salt iv tag ct : Str} (hsalt : salt.length = saltSize)
    (hiv : iv.length = gcmIvLen)
    (htag : tag.length = gcmTagLen) (data : Str) (hdata : data = salt ++ (iv ++ (tag ++ ct))) :
    data.take saltSize = salt ∧ (data.drop saltSize).take gcmIvLen = iv ∧
      (data.drop (saltSize + gcmIvLen)).take gcmTagLen = tag ∧
      data.drop (saltSize + gcmIvLen + gcmTagLen) = ct := by
  subst hdata
  have hfirst : (salt ++ (iv ++ (tag ++ ct))).drop saltSize = iv ++ (tag ++ ct) :=
    List.drop_left' hsalt
  have hsecond : (salt ++ (iv ++ (tag ++ ct))).drop (saltSize + gcmIvLen) = tag ++ ct := by
    rw [← List.drop_drop, hfirst]
    exact List.drop_left' hiv
  refine ⟨List.take_left' hsalt, ?_, ?_, ?_⟩
  · rw [hfirst]
    exact List.take_left' hiv
  · rw [hsecond]
    exact List.take_left' htag
  · rw [← List.drop_drop, hsecond]
    exact List.drop_left' htag

theorem load_written {chunks : List Str} {s₀ : FileState} (hopens : T.Opens)
    (h : Writes T password s chunks)
    (hfresh : s₀.durable = ({} : FileState).durable) (hpin : s₀.hubRemoteEdPub = none) (d : Draws)
    (readOnly : Bool) : ∃ r, load T d readOnly password (some chunks.flatten) s₀ = some r ∧
      r.state.durable = s.durable.back ∧
      (r.ok = true ↔ s.targetNick ≠ [] ∧ s.serverList ≠ [] ∧ s.user ≠ []) := by
  obtain ⟨salt, iv, hsalt, hiv, hplan⟩ := h.plan
  unfold writeFile at hplan
  split at hplan
  · cases hplan
  · split at hplan
    · cases hplan
    · rename_i text htext
      split at hplan
      · cases hplan
      · rename_i hne
        dsimp only at hplan
        split at hplan
        · rename_i ct tag hct
          obtain rfl := Plan.replace.inj hplan
          have hlen := hopens.ct_length hct
          have htag : tag.length = gcmTagLen := hopens.tag_length hct
          have hsize : text.length < maxConfigSize := by
            obtain ⟨ls, -, hwithin⟩ := Option.bind_eq_some_iff.mp htext
            obtain rfl := within_eq_some hwithin
            unfold within at hwithin
            split at hwithin
            · assumption
            · cases hwithin
          have hdata : [salt, iv, tag, ct].flatten = salt ++ (iv ++ (tag ++ ct)) := by simp
          obtain ⟨htake, hthen, htags, hrest⟩ := split_file hsalt hiv htag _ hdata
          have hshort : ¬ [salt, iv, tag, ct].flatten.length < saltSize + gcmIvLen + gcmTagLen := by
            rw [hdata]
            simp only [List.length_append]
            omega
          have hfits : (ct.isEmpty || decide (maxConfigSize < ct.length)) = false := by
            have hct : ct ≠ [] := by
              rintro rfl
              exact hne (List.isEmpty_iff.mpr (List.length_eq_zero_iff.mp hlen.symm))
            simp [hct, hlen, Nat.le_of_lt hsize]
          have hdecrypt : decryptFile T password [salt, iv, tag, ct].flatten =
            some (text, false) := by
            unfold decryptFile
            rw [if_neg hshort, htake, hthen, htags, hrest]
            dsimp only
            rw [hfits, if_neg Bool.false_ne_true, hopens.opens hct]
          refine ⟨_, by rw [load, Option.bind_some, hdecrypt, Option.map_some], ?_⟩
          dsimp only
          rw [fromUtf8Lossy_text (h.text text htext)]
          obtain ⟨hback, hok, -⟩ := load_serialize h.savable htext hfresh hpin d readOnly false
          exact ⟨hback, hok⟩
        · cases hplan

/-- **Whatever happened, the file is a whole one**: there is none, or it is loaded as a state that
was saved or was about to be. -/
theorem file_whole {labels : List (Label FileState)} {disk : Disk UInt8} {s₀ : FileState}
    (hopens : T.Opens) (hrun : Steps (Step (Writes T password)) {} labels disk)
    (hfresh : s₀.durable = ({} : FileState).durable) (hpin : s₀.hubRemoteEdPub = none) (d : Draws)
    (readOnly : Bool) :
    let loaded := load T d readOnly password (disk.main.map (·.content)) s₀
    disk.main = none ∧ loaded = none ∨
      ∃ s r, Tried labels s ∧ loaded = some r ∧ r.state.durable = s.durable.back := by
  obtain ⟨x, hholds, htried⟩ := run_whole hrun
  generalize disk.main = main at hholds
  cases hholds with
  | none => exact .inl ⟨rfl, rfl⟩
  | @some s chunks hw =>
      obtain ⟨r, hload, hback, -⟩ := load_written hopens hw hfresh hpin d readOnly
      exact .inr ⟨s, r, htried s rfl, hload, hback⟩

/-- **A save stands until the next one**, or until the power is lost. -/
theorem save_stands {before after : List (Label FileState)} {s : FileState} {disk : Disk UInt8}
    {s₀ : FileState} (hopens : T.Opens)
    (hrun : Steps (Step (Writes T password)) {} (before ++ .saved s :: after) disk)
    (hpower : Label.lost ∉ after) (hfresh : s₀.durable = ({} : FileState).durable)
    (hpin : s₀.hubRemoteEdPub = none) (d : Draws) (readOnly : Bool) :
    ∃ s' r, (s' = s ∨ Tried after s') ∧
      load T d readOnly password (disk.main.map (·.content)) s₀ = some r ∧
      r.state.durable = s'.durable.back := by
  obtain ⟨s', hholds, htried⟩ := run_now hrun hpower
  generalize disk.main = main at hholds
  cases hholds with
  | @some _ chunks hw =>
      obtain ⟨r, hload, hback, -⟩ := load_written hopens hw hfresh hpin d readOnly
      exact ⟨s', r, htried, hload, hback⟩

end

/-- Tools that leave everything but base64 in clear, for runs on concrete inputs. -/
def FileTools.clear : FileTools where
  toPrimitives := homeTools
  scrypt _ _ _ _ _ := some (List.replicate 32 0)
  pbkdf2 _ _ _ := List.replicate 32 0

theorem FileTools.clear_opens : FileTools.clear.Opens := Primitives.clear_opens.congr rfl rfl

/-- What is written for a state, in its parts. -/
def homeChunks (s : FileState) : List Str :=
  [List.replicate saltSize 0, List.replicate gcmIvLen 0, List.replicate gcmTagLen 0,
    (serialize homeTools s).getD []]

theorem writes_homeChunks {s : FileState} (hsavable : Savable homeTools s)
    (hascii : (((serialize homeTools s).getD []).all (· < 0x80)) = true)
    (hplan : writeFile FileTools.clear (str "secret") (some (List.replicate saltSize 0))
      (some (List.replicate gcmIvLen 0)) s = .replace (homeChunks s)) :
    Writes FileTools.clear (str "secret") s (homeChunks s) where
  savable := hsavable
  text text htext := by
    rw [show serialize homeTools s = some text from htext, Option.getD_some] at hascii
    exact Lib.Utf8.text_of_ascii fun c hc => of_decide_eq_true (List.all_eq_true.mp hascii c hc)
  plan := ⟨List.replicate saltSize 0, List.replicate gcmIvLen 0, rfl, rfl, hplan⟩

theorem homeState_writes : Writes FileTools.clear (str "secret") homeState (homeChunks homeState) :=
  writes_homeChunks homeState_savable (by decide +kernel) (by decide +kernel)

/-- The same bot, as it was saved before. -/
def olderState : FileState := { homeState with logLevel := 2, adminDeltaPending := false }

theorem olderState_writes : Writes FileTools.clear (str "secret") olderState (homeChunks olderState) :=
  writes_homeChunks { homeState_savable with } (by decide +kernel) (by decide +kernel)

/-- What has been written of a state when a write of its text stops half-way. -/
def halfWritten (s : FileState) : Option (File UInt8) :=
  some ⟨List.replicate (saltSize + gcmIvLen + gcmTagLen) 0 ++ ((serialize homeTools s).getD []).take 100, false⟩

/-- An attempt that ends in a write of the text: the process is stopped, or the write fails. -/
theorem half_written (s : FileState) (d : Disk UInt8) :
    Runs (replace (homeChunks s)) d false { d with temp := halfWritten s } ∧
      Stops (replace (homeChunks s)) d { d with temp := halfWritten s } := by
  constructor
  · exact .next (.create d) (.next (.write rfl _) (.next (.write rfl _) (.next (.write rfl _)
      (.fails (.fails _ _ (halfWritten s))))))
  · exact .next (.create d) (.next (.write rfl _) (.next (.write rfl _) (.next (.write rfl _)
      (.fails (.fails _ _ (halfWritten s))))))

/-- After two saves, with a failure half-way between them, and a stop half-way, the power is lost,
and the second rename is undone. -/
theorem file_whole_home :
    let loaded := load FileTools.clear ⟨fun _ => none, none, none⟩ false (str "secret")
      (some (homeChunks olderState).flatten) {}
    some (File.mk (homeChunks olderState).flatten true) = none ∧ loaded = none ∨
      ∃ s r, Tried [.saved olderState, .failed homeState, .saved homeState, .stopped olderState, .lost] s ∧
        loaded = some r ∧ r.state.durable = s.durable.back := by
  have hundone : (some ⟨(homeChunks olderState).flatten, true⟩ : Option (File UInt8)) ∈
      [some ⟨(homeChunks homeState).flatten, true⟩, none,
        some ⟨(homeChunks olderState).flatten, true⟩] := by
    simp
  have hrun : Steps (Step (Writes FileTools.clear (str "secret"))) {}
      [.saved olderState, .failed homeState, .saved homeState, .stopped olderState, .lost]
      { main := some ⟨(homeChunks olderState).flatten, true⟩, temp := none, past := [] } :=
    .cons (.saved olderState_writes (runs_replace_all _ {}))
      (.cons (.failed homeState_writes (half_written homeState _).1 (halfWritten homeState))
        (.cons (.saved homeState_writes (runs_replace_all _ _))
          (.cons (.stopped olderState_writes (half_written olderState _).2)
            (.cons (.lost (.loses hundone (.synced _) none)) (.nil _)))))
  exact file_whole FileTools.clear_opens hrun rfl rfl _ false

/-- A save stands through a failure half-way, a refusal and a stop. -/
theorem save_stands_home :
    ∃ s r, (s = homeState ∨ Tried [.failed olderState, .failed homeState, .stopped olderState] s) ∧
      load FileTools.clear ⟨fun _ => none, none, none⟩ false (str "secret")
        (some (homeChunks homeState).flatten) {} = some r ∧
      r.state.durable = s.durable.back := by
  have hrun : Steps (Step (Writes FileTools.clear (str "secret"))) {}
      ([.saved olderState] ++ .saved homeState ::
        [.failed olderState, .failed homeState, .stopped olderState])
      { main := some ⟨(homeChunks homeState).flatten, true⟩, temp := halfWritten olderState
        past := [none, some ⟨(homeChunks olderState).flatten, true⟩] } :=
    .cons (.saved olderState_writes (runs_replace_all _ {}))
      (.cons (.saved homeState_writes (runs_replace_all _ _))
        (.cons (.failed olderState_writes (half_written olderState _).1 (halfWritten olderState))
          (.cons (.refused homeState _)
            (.cons (.stopped olderState_writes (half_written olderState _).2) (.nil _)))))
  exact save_stands FileTools.clear_opens hrun (by simp) rfl rfl _ false

end IrcBot.ConfigFile
