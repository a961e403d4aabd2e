import Libtg.Tg.GetFile

/-!
# Where the download ends (`tg/files.c`)

`tg_get_file_with_progress` for any size its callers pass, a photo's being 0 and a document's one of
64 bits that becomes an `int`, and for any parts a server answers with, one after the other.
-/

namespace Libtg

open Loop

/-! ## What is asked of the loop -/

/-- The condition of the `while`. -/
def Going (size : Int) (s : Download) : Prop := size > 0 → s.offset < size

/-- The file in an answer that `tg_get_file_with_progress` takes one from. -/
def partFile (tl : Tl) : Option TgFile := if tl.id = idUploadFile then tgFileFromTl tl else none

section
variable (server : List Bytes → Tl) (callback : Option (List TgFile → Int)) (location : Bytes)
  (size : Int)

/-- The state of the loop before the first round. -/
def Download.start : Download := ⟨0, [], []⟩

/-- The request of a round. -/
def Download.request (s : Download) : Bytes :=
  tlUploadGetFile location (UInt64.ofInt s.offset) (UInt32.ofNat getFileLimit)

/-- The answer to the request of a round. -/
def Download.answer (s : Download) : Tl := server (s.request location :: s.requests)

/-- The loop is defined and ends: no round divides by zero, a sum of the offset and the length of a
part fits in an `int`, a part without bytes is the last one, and the loop comes to a `return`. -/
structure DownloadDefined : Prop where
  divides : ∀ s, Visits (getFileStep server callback location size) .start s → Going size s →
    size ≠ 0
  fits : ∀ s, Visits (getFileStep server callback location size) .start s → Going size s →
    ∀ file, partFile (s.answer server location) = some file →
      -2 ^ 31 ≤ s.offset + file.bytes.length ∧ s.offset + file.bytes.length < 2 ^ 31
  empty : ∀ s, Visits (getFileStep server callback location size) .start s → Going size s →
    ∀ file, partFile (s.answer server location) = some file → file.bytes = [] →
      ∃ r, getFileStep server callback location size s = .inl r
  ends : ∃ ret s, TgGetFileWithProgress server callback location size (.returns ret, s)

end

/-! ## The parts a server answers with -/

/-- The server answers with one part after the other. -/
def inOrder (parts : Nat → Tl) (past : List Bytes) : Tl := parts (past.length - 1)

/-- The callback does not ask to stop. -/
def GoesOn (callback : Option (List TgFile → Int)) (files : List TgFile) : Prop :=
  ∀ f, callback = some f → f files = 0

section
variable (parts : Nat → Tl) (callback : Option (List TgFile → Int)) (size : Int)

/-- The files in the first parts, the latest first. -/
def filesTo : Nat → List TgFile
  | 0 => []
  | k + 1 => (partFile (parts k)).toList ++ filesTo k

/-- The bytes in the first parts. -/
def bytesTo (k : Nat) : Nat := ((filesTo parts k).map fun file => file.bytes.length).sum

/-- The part of this number is wanted: the parts before are files after which the callback went on,
and they are shorter than the size, if it is positive. -/
def Wanted : Nat → Prop
  | 0 => True
  | k + 1 => Wanted k ∧ (partFile (parts k)).isSome ∧ GoesOn callback (filesTo parts (k + 1)) ∧
      (size > 0 → bytesTo parts (k + 1) < size)

/-- A part the loop can take: its file, if it is one, names its type and ends below `2 ^ 31`, and if
it is empty then the callback stops. -/
structure Takes (k : Nat) : Prop where
  type : (parts k).id = idUploadFile → (partFile (parts k)).isSome
  fits : (partFile (parts k)).isSome → bytesTo parts (k + 1) < 2 ^ 31
  empty : ∀ file, partFile (parts k) = some file → file.bytes = [] →
    ¬ GoesOn callback (filesTo parts (k + 1))

end

/-! ## A round -/

/-- The second half of a round, from a file on. -/
def keepFile (callback : Option (List TgFile → Int)) (file : TgFile) (s : Download) :
    Outcome × Download ⊕ Download :=
  let s := { s with offset := (s.offset + file.bytes.length).bmod (2 ^ 32) }
  match callback with
  | none => .inr s
  | some callback =>
    let s := { s with files := file :: s.files }
    if callback s.files ≠ 0 then .inl (.returns 0, s) else .inr s

/-- The second half of a round, from the answer on. -/
def takePart (callback : Option (List TgFile → Int)) (tl : Tl) (s : Download) :
    Outcome × Download ⊕ Download :=
  if tl.id ≠ idUploadFile then .inl (.returns 1, s)
  else
    match tgFileFromTl tl with
    | none => .inl (.crash, s)
    | some file => keepFile callback file s

section
variable {server : List Bytes → Tl} {callback : Option (List TgFile → Int)} {location : Bytes}
  {size : Int} {s t : Download} {tl : Tl} {file : TgFile}

theorem getFileStep_done (h : ¬ Going size s) :
    getFileStep server callback location size s = .inl (.returns 0, s) := by
  rw [Going, Classical.not_imp] at h
  rw [getFileStep, if_pos h]

theorem getFileStep_zero : getFileStep server callback location 0 s = .inl (.crash, s) := by
  have hcond : ¬ ((0 : Int) > 0 ∧ ¬ s.offset < 0) := fun h => lt_irrefl _ h.1
  rw [getFileStep, if_neg hcond, if_pos (.inl rfl)]

theorem getFileStep_going (hgo : Going size s) (hsize : size ≠ 0) (hoffset : 0 ≤ s.offset) :
    getFileStep server callback location size s =
      takePart callback (s.answer server location)
        { s with requests := s.request location :: s.requests } := by
  have hcond : ¬ (size > 0 ∧ ¬ s.offset < size) := fun h => h.2 (hgo h.1)
  have hdiv : ¬ (size = 0 ∨ s.offset = -2 ^ 31 ∧ size = -1) := by omega
  rw [getFileStep, if_neg hcond, if_neg hdiv, Download.answer, Download.request]
  dsimp only
  generalize server _ = tl
  cases tl <;> rfl

theorem takePart_other (h : tl.id ≠ idUploadFile) :
    takePart callback tl s = .inl (.returns 1, s) := if_pos h

/-- A file of an unknown type. -/
theorem takePart_typeless (h : tl.id = idUploadFile) (hfile : partFile tl = none) :
    takePart callback tl s = .inl (.crash, s) := by
  rw [partFile, if_pos h] at hfile
  rw [takePart, if_neg (not_not_intro h), hfile]

theorem takePart_file (h : partFile tl = some file) :
    takePart callback tl s = keepFile callback file s := by
  rw [partFile, Option.ite_none_right_eq_some] at h
  rw [takePart, if_neg (not_not_intro h.1), h.2]

theorem keepFile_stops (h : ¬ GoesOn callback (file :: s.files)) :
    ∃ t, keepFile callback file s = .inl (.returns 0, t) := by
  cases callback with
  | none => exact absurd (fun f hf => by cases hf) h
  | some f =>
    have hf : f (file :: s.files) ≠ 0 := fun hf => h fun g hg => by cases hg; exact hf
    exact ⟨_, if_pos hf⟩

theorem keepFile_goes (h : GoesOn callback (file :: s.files)) :
    ∃ t, keepFile callback file s = .inr t ∧
      t.offset = (s.offset + file.bytes.length).bmod (2 ^ 32) ∧ t.requests = s.requests ∧
      (callback.isSome → t.files = file :: s.files) := by
  cases callback with
  | none => exact ⟨_, rfl, rfl, rfl, fun h => absurd h Bool.false_ne_true⟩
  | some f => exact ⟨_, if_neg (not_not_intro (h f rfl)), rfl, rfl, fun _ => rfl⟩

end

/-! ## Round after round -/

section
variable {parts : Nat → Tl} {callback : Option (List TgFile → Int)} {location : Bytes}
  {size : Int} {s t : Download} {file : TgFile} {k : Nat}

/-- The loop has taken the first parts. -/
structure TakenTo (parts : Nat → Tl) (callback : Option (List TgFile → Int)) (k : Nat)
    (s : Download) : Prop where
  requests : s.requests.length = k
  offset : s.offset = bytesTo parts k
  files : callback.isSome → s.files = filesTo parts k

theorem TakenTo.answer (h : TakenTo parts callback k s) (location : Bytes) :
    s.answer (inOrder parts) location = parts k := by
  rw [Download.answer, inOrder, List.length_cons, Nat.add_sub_cancel, h.requests]

theorem TakenTo.nonneg (h : TakenTo parts callback k s) : 0 ≤ s.offset := by
  rw [h.offset]
  exact Int.natCast_nonneg _

theorem filesTo_succ (h : partFile (parts k) = some file) :
    filesTo parts (k + 1) = file :: filesTo parts k := by
  rw [filesTo, h]
  rfl

theorem bytesTo_succ (h : partFile (parts k) = some file) :
    bytesTo parts (k + 1) = bytesTo parts k + file.bytes.length := by
  rw [bytesTo, filesTo_succ h, List.map_cons, List.sum_cons, Nat.add_comm]
  rfl

/-- Only a callback looks at the files. -/
theorem TakenTo.goesOn_iff (h : TakenTo parts callback k s)
    (hfile : partFile (parts k) = some file) :
    GoesOn callback (file :: s.files) ↔ GoesOn callback (filesTo parts (k + 1)) := by
  cases callback with
  | none => exact iff_of_true (fun f hf => by cases hf) fun f hf => by cases hf
  | some f => rw [filesTo_succ hfile, h.files rfl]

/-- A round with a file that fits, after which the callback goes on. -/
theorem TakenTo.next (h : TakenTo parts callback k s) (location : Bytes) (hgo : Going size s)
    (hsize : size ≠ 0) (hfile : partFile (parts k) = some file)
    (hfits : bytesTo parts (k + 1) < 2 ^ 31)
    (hgoes : GoesOn callback (filesTo parts (k + 1))) :
    ∃ t, getFileStep (inOrder parts) callback location size s = .inr t ∧
      TakenTo parts callback (k + 1) t := by
  have hoffset := h.offset
  have hsum := bytesTo_succ hfile
  obtain ⟨t, hstep, ht, hrequests, hfiles⟩ := keepFile_goes
    (s := { s with requests := s.request location :: s.requests })
    ((h.goesOn_iff hfile).mpr hgoes)
  refine ⟨t, ?_, ?_, ?_, fun hsome => ?_⟩
  · rw [getFileStep_going hgo hsize (by omega), h.answer location, takePart_file hfile, hstep]
  · rw [hrequests, List.length_cons, h.requests]
  · rw [ht]
    dsimp only
    rw [hoffset, hsum, Int.bmod_eq_of_le_mul_two] <;> omega
  · rw [hfiles hsome, filesTo_succ hfile, h.files hsome]

/-- A round with a file after which the callback stops. -/
theorem TakenTo.stops (h : TakenTo parts callback k s) (location : Bytes) (hgo : Going size s)
    (hsize : size ≠ 0) (hfile : partFile (parts k) = some file)
    (hstops : ¬ GoesOn callback (filesTo parts (k + 1))) :
    ∃ t, getFileStep (inOrder parts) callback location size s = .inl (.returns 0, t) := by
  obtain ⟨t, hstep⟩ := keepFile_stops
    (s := { s with requests := s.request location :: s.requests })
    (mt (h.goesOn_iff hfile).mp hstops)
  refine ⟨t, ?_⟩
  rw [getFileStep_going hgo hsize h.nonneg, h.answer location, takePart_file hfile, hstep]

theorem Wanted.going (h : Wanted parts callback size k) (hs : TakenTo parts callback k s) :
    Going size s := by
  intro hsize
  rw [hs.offset]
  cases k with
  | zero => exact hsize
  | succ k => exact h.2.2.2 hsize

/-- With a sum that fits in every round, the loop comes to every part that is wanted. -/
theorem DownloadDefined.visits_wanted
    (h : DownloadDefined (inOrder parts) callback location size)
    (hwanted : Wanted parts callback size k) :
    ∃ s, Visits (getFileStep (inOrder parts) callback location size) .start s ∧
      TakenTo parts callback k s := by
  induction k with
  | zero => exact ⟨.start, .enter, rfl, rfl, fun _ => rfl⟩
  | succ k ih =>
    obtain ⟨hk, hsome, hgoes, -⟩ := hwanted
    obtain ⟨s, hvisits, hs⟩ := ih hk
    obtain ⟨file, hfile⟩ := Option.isSome_iff_exists.mp hsome
    have hgo := hk.going hs
    have hfits := h.fits s hvisits hgo file ((hs.answer location).symm ▸ hfile)
    rw [hs.offset] at hfits
    have hlt : bytesTo parts (k + 1) < 2 ^ 31 := by
      rw [bytesTo_succ hfile]
      omega
    obtain ⟨t, hstep, ht⟩ := hs.next location hgo (h.divides s hvisits hgo) hfile hlt hgoes
    exact ⟨t, .next hvisits hstep, ht⟩

theorem DownloadDefined.takes (h : DownloadDefined (inOrder parts) callback location size)
    (hwanted : Wanted parts callback size k) : Takes parts callback k := by
  obtain ⟨s, hvisits, hs⟩ := h.visits_wanted hwanted
  have hgo := hwanted.going hs
  have hsize := h.divides s hvisits hgo
  have hfits : ∀ file, partFile (parts k) = some file → bytesTo parts (k + 1) < 2 ^ 31 := by
    intro file hfile
    have hlt := h.fits s hvisits hgo file ((hs.answer location).symm ▸ hfile)
    rw [hs.offset] at hlt
    rw [bytesTo_succ hfile]
    omega
  refine ⟨fun hid => ?_, fun hsome => ?_, fun file hfile hempty hgoes => ?_⟩
  · by_contra hnone
    obtain ⟨ret, r, hyields⟩ := h.ends
    have hcrash : takePart callback (parts k) _ = _ := takePart_typeless
      (s := { s with requests := s.request location :: s.requests }) hid
      (Option.not_isSome_iff_eq_none.mp hnone)
    rw [← hs.answer location, ← getFileStep_going hgo hsize hs.nonneg] at hcrash
    have hleft := (yields_leave hcrash).mp (hvisits.yields.mp hyields)
    cases hleft
  · obtain ⟨file, hfile⟩ := Option.isSome_iff_exists.mp hsome
    exact hfits file hfile
  · obtain ⟨t, hstep, -⟩ := hs.next location hgo hsize hfile (hfits file hfile) hgoes
    obtain ⟨r, hleave⟩ := h.empty s hvisits hgo file ((hs.answer location).symm ▸ hfile) hempty
    rw [hstep] at hleave
    cases hleave

/-- What holds between the rounds if the loop can take every part that is wanted. -/
def Sound (parts : Nat → Tl) (callback : Option (List TgFile → Int)) (size : Int)
    (s : Download) : Prop :=
  ∃ k, TakenTo parts callback k s ∧ (Going size s → Wanted parts callback size k) ∧
    bytesTo parts k < 2 ^ 31

/-- A round: the loop is left with a `return`, or there are more bytes than before. -/
theorem Sound.round (h : Sound parts callback size s) (location : Bytes) (hsize : size ≠ 0)
    (htakes : ∀ k, Wanted parts callback size k → Takes parts callback k) :
    (∃ ret t, getFileStep (inOrder parts) callback location size s = .inl (.returns ret, t)) ∨
      ∃ t, getFileStep (inOrder parts) callback location size s = .inr t ∧
        Sound parts callback size t ∧ s.offset < t.offset := by
  obtain ⟨k, hs, hwanted, hlt⟩ := h
  by_cases hgo : Going size s
  · have hk := hwanted hgo
    have htake := htakes k hk
    by_cases hid : (parts k).id = idUploadFile
    · have hsome := htake.type hid
      obtain ⟨file, hfile⟩ := Option.isSome_iff_exists.mp hsome
      by_cases hgoes : GoesOn callback (filesTo parts (k + 1))
      · obtain ⟨t, hstep, ht⟩ := hs.next location hgo hsize hfile (htake.fits hsome)
          hgoes
        refine .inr ⟨t, hstep,
          ⟨k + 1, ht, fun hgo' => ⟨hk, hsome, hgoes, ?_⟩, htake.fits hsome⟩, ?_⟩
        · rw [← ht.offset]
          exact hgo'
        · have hpos := List.length_pos_iff.mpr fun hempty => htake.empty file hfile hempty hgoes
          rw [hs.offset, ht.offset, bytesTo_succ hfile]
          omega
      · obtain ⟨t, hstop⟩ := hs.stops location hgo hsize hfile hgoes
        exact .inl ⟨0, t, hstop⟩
    · refine .inl ⟨1, _, (getFileStep_going hgo hsize hs.nonneg).trans (takePart_other ?_)⟩
      rwa [hs.answer location]
  · exact .inl ⟨0, s, getFileStep_done hgo⟩

theorem sound_start : Sound parts callback size .start :=
  ⟨0, ⟨rfl, rfl, fun _ => rfl⟩, fun _ => trivial, Nat.two_pow_pos 31⟩

theorem downloadDefined_of_takes (hsize : size ≠ 0)
    (htakes : ∀ k, Wanted parts callback size k → Takes parts callback k) :
    DownloadDefined (inOrder parts) callback location size := by
  have hvisits : ∀ s, Visits (getFileStep (inOrder parts) callback location size) .start s →
      Sound parts callback size s := by
    intro s h
    refine h.invariant sound_start fun s t hs hstep => ?_
    obtain ⟨ret, u, hleave⟩ | ⟨u, hnext, hu, -⟩ := hs.round location hsize htakes
    · rw [hleave] at hstep
      cases hstep
    · rw [hnext] at hstep
      cases hstep
      exact hu
  refine ⟨fun _ _ _ => hsize, fun s h hgo file hfile => ?_, fun s h hgo file hfile hempty => ?_, ?_⟩
  · obtain ⟨k, hs, hwanted, -⟩ := hvisits s h
    rw [hs.answer location] at hfile
    have hlt := (htakes k (hwanted hgo)).fits (Option.isSome_iff_exists.mpr ⟨file, hfile⟩)
    rw [bytesTo_succ hfile] at hlt
    rw [hs.offset]
    omega
  · obtain ⟨k, hs, hwanted, -⟩ := hvisits s h
    have hstops := (htakes k (hwanted hgo)).empty file (hs.answer location ▸ hfile) hempty
    obtain ⟨t, hleave⟩ := hs.stops location hgo hsize (hs.answer location ▸ hfile) hstops
    exact ⟨_, hleave⟩
  · have hround : ∀ s, Sound parts callback size s →
        (∃ r, getFileStep (inOrder parts) callback location size s = .inl r ∧
          ∃ ret, r.1 = .returns ret) ∨
        ∃ t, getFileStep (inOrder parts) callback location size s = .inr t ∧
          Sound parts callback size t ∧ 2 ^ 31 - t.offset.toNat < 2 ^ 31 - s.offset.toNat := by
      intro s hs
      obtain ⟨ret, u, hleave⟩ | ⟨t, hnext, ht, hgrows⟩ :=
        hs.round location hsize htakes
      · exact .inl ⟨_, hleave, ret, rfl⟩
      · obtain ⟨k, hk, -, hlt⟩ := hs
        have hoffset := hk.offset
        exact .inr ⟨t, hnext, ht, by omega⟩
    obtain ⟨⟨out, s⟩, hyields, ret, rfl⟩ := yields_of_measure _ hround sound_start
    exact ⟨ret, s, hyields⟩

/-- The download is defined and ends exactly if there is a size and the loop can take every part
that is wanted. -/
theorem downloadDefined_iff (parts : Nat → Tl) (callback : Option (List TgFile → Int))
    (location : Bytes) (size : UInt64) :
    DownloadDefined (inOrder parts) callback location ((size.toNat : Int).bmod (2 ^ 32)) ↔
      (size.toNat : Int).bmod (2 ^ 32) ≠ 0 ∧
        ∀ k, Wanted parts callback ((size.toNat : Int).bmod (2 ^ 32)) k →
          Takes parts callback k := by
  constructor
  · intro h
    exact ⟨h.divides .start .enter id, fun k hk => h.takes hk⟩
  · rintro ⟨hsize, htakes⟩
    exact downloadDefined_of_takes hsize htakes

end

/-- Without a size the first round divides by zero, before anything is asked for. -/
theorem tgGetFileWithProgress_zero {server : List Bytes → Tl}
    {callback : Option (List TgFile → Int)} {location : Bytes} {r : Outcome × Download} :
    TgGetFileWithProgress server callback location 0 r ↔ r = (.crash, .start) :=
  yields_leave getFileStep_zero

/-- The download of a photo, whose size is 0 and whose callback stops after the first part. -/
theorem not_downloadDefined_photo :
    ¬ DownloadDefined
      (inOrder fun _ => .object idUploadFile []
        [.object idStorageFileUnknown [] [], .int 0, .buf [1]])
      (some fun _ => 1) [] (((0 : UInt64).toNat : Int).bmod (2 ^ 32)) := by
  have hzero : ((0 : UInt64).toNat : Int).bmod (2 ^ 32) = 0 := by decide
  rw [hzero]
  intro h
  obtain ⟨ret, s, hends⟩ := h.ends
  have hcrash := tgGetFileWithProgress_zero.mp hends
  cases hcrash

end Libtg
