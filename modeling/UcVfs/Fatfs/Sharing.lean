import UcVfs.Fatfs.Serving

/-!
# The shares of the mounts

What the calls about a mount depend on, taken out of the common state, and what is left of
the shares when the drive was used for one of them.
-/

namespace UcVfs

variable {c : FatCore} {Mnt : Type} [DecidableEq Mnt] (dno : Mnt → Fin 2)

/-- The descriptors of the mounts: their disks, drive 0, and buffers of full size. -/
structure FatState.Described (fat : FatState (c.fatFs Mnt)) : Prop where
  diskNo : ∀ m,(fat.descs m).dno = dno m
  volIdx : ∀ m,(fat.descs m).volIdx = 0
  buff : ∀ m,(fat.descs m).absPathStrBuff.length = FATFS_MAX_ABS_PATH_SIZE

/-- The object of a descriptor is still tied to its volume. -/
def FatState.live (fat : FatState (c.fatFs Mnt)) (h : VfsHandle c Mnt) : Bool :=
  (Drive.validate fat.sys h.fd.file).isSome

namespace NumberedVfs

/-- What the calls about a mount depend on. -/
def share (s : NumberedVfs c Mnt) (m : Mnt) : PrivateVolume c where
  vol := (s.fat.sys.record m).fsType.map fun ft => (ft,(s.fat.sys.record m).vol)
  disk := s.fat.sys.disks (dno m)
  openFiles := s.openFiles m
  opened := s.opened m
  handles k := (s.handles m k).map fun h => ⟨h.flags,s.fat.live h,h.fd.file.body⟩

/-- A mounted volume is the one that the drive serves; objects belong to their mounts, and no
mount was given an id twice. -/
structure Tidy (s : NumberedVfs c Mnt) : Prop where
  described : s.fat.Described dno
  mounted : ∀ m,s.mounted m = (s.fat.sys.record m).fsType.isSome
  serves : ∀ m,s.mounted m = true →
    s.fat.sys.fatFs = some m ∧ s.fat.sys.fatDisk = some (dno m)
  ids : ∀ m,(s.fat.sys.record m).id ≤ s.fat.sys.fsid
  handles : ∀ m k h,s.handles m k = some h →
    (h.fd.file.fs = none ∨ h.fd.file.fs = some m) ∧ h.fd.file.id ≤ s.fat.sys.fsid

end NumberedVfs

/-- The path buffers may have been written, nothing else of the descriptors. -/
structure FatState.Kept (fat fat' : FatState (c.fatFs Mnt)) : Prop where
  diskNo : ∀ m,(fat'.descs m).dno = (fat.descs m).dno
  volIdx : ∀ m,(fat'.descs m).volIdx = (fat.descs m).volIdx
  buff : ∀ m,(fat'.descs m).absPathStrBuff.length = (fat.descs m).absPathStrBuff.length

theorem FatState.Kept.built {fat fat' : FatState (c.fatFs Mnt)} (m : Mnt) (name : CStr)
    (h : fat'.descs = Function.update fat.descs m ((fat.descs m).buildAbsPath name)) :
    fat.Kept fat' := by
  have hcase : ∀ n,fat'.descs n = fat.descs n ∨ n = m ∧
      fat'.descs n = (fat.descs m).buildAbsPath name := by
    intro n
    by_cases hn : n = m
    · subst hn
      simp [h]
    · simp [h,hn]
  refine ⟨?_,?_,?_⟩
  · intro n
    rcases hcase n with he | ⟨rfl,he⟩
    · rw [he]
    · rw [he]
      rfl
  · intro n
    rcases hcase n with he | ⟨rfl,he⟩
    · rw [he]
    · rw [he]
      rfl
  · intro n
    rcases hcase n with he | ⟨rfl,he⟩
    · rw [he]
    · rw [he,FatfsDesc.buildAbsPath_length]

theorem FatState.Kept.described {fat fat' : FatState (c.fatFs Mnt)} {dno : Mnt → Fin 2}
    (h : fat.Kept fat') (hfat : fat.Described dno) : fat'.Described dno :=
  ⟨fun m => (h.diskNo m).trans (hfat.diskNo m),fun m => (h.volIdx m).trans (hfat.volIdx m),
    fun m => (h.buff m).trans (hfat.buff m)⟩

theorem FatState.Kept.same {fat fat' : FatState (c.fatFs Mnt)} (h : fat'.descs = fat.descs) :
    fat.Kept fat' :=
  ⟨fun _ => by rw [h],fun _ => by rw [h],fun _ => by rw [h]⟩

namespace NumberedVfs

variable {dno} {s : NumberedVfs c Mnt} {m : Mnt}

theorem Tidy.unmounted (h : Tidy dno s) (hm : s.mounted m = false) :
    (s.fat.sys.record m).fsType = none := by
  have hsome := h.mounted m
  rw [hm] at hsome
  exact Option.isSome_eq_false_iff.mp hsome.symm |> Option.isNone_iff_eq_none.mp

theorem Tidy.fsType (h : Tidy dno s) (hm : s.mounted m = true) :
    ∃ ft,(s.fat.sys.record m).fsType = some ft := by
  have hsome := h.mounted m
  rw [hm] at hsome
  exact Option.isSome_iff_exists.mp hsome.symm

theorem Tidy.share_vol (h : Tidy dno s) : (s.share dno m).vol.isSome = s.mounted m := by
  rw [h.mounted,share,Option.isSome_map]

/-- What is left of the shares and of the invariant when something was done with the volume
and the disk of a mount. -/
theorem Tidy.patched (hdno : Function.Injective dno) (h : Tidy dno s)
    {fat' : FatState (c.fatFs Mnt)} (hkept : s.fat.Kept fat') {vol : c.Vol} {disk : c.Disk}
    (hsys : fat'.sys = s.fat.sys.patch m (dno m) vol disk) {ft : FatType}
    (hft : (s.fat.sys.record m).fsType = some ft) :
    Tidy dno { s with fat := fat' } ∧
      share dno { s with fat := fat' } m = (s.share dno m).after ft vol disk ∧
      ∀ n,n ≠ m → share dno { s with fat := fat' } n = s.share dno n := by
  have hrecord : ∀ n,(fat'.sys.record n).fsType = (s.fat.sys.record n).fsType := by
    intro n
    rw [hsys]
    exact Drive.patch_fsType ..
  have hlive : ∀ h,fat'.live h = s.fat.live h := by
    intro h
    rw [FatState.live,hsys,Drive.validate_patch]
    rfl
  have hfsid : fat'.sys.fsid = s.fat.sys.fsid := by rw [hsys]; rfl
  have hfatFs : fat'.sys.fatFs = s.fat.sys.fatFs := by rw [hsys]; rfl
  have hfatDisk : fat'.sys.fatDisk = s.fat.sys.fatDisk := by rw [hsys]; rfl
  refine ⟨⟨hkept.described h.described,?_,?_,?_,?_⟩,?_,?_⟩
  · intro n
    rw [hrecord]
    exact h.mounted n
  · intro n hn
    rw [hfatFs,hfatDisk]
    exact h.serves n hn
  · intro n
    rw [hfsid,hsys,Drive.patch_id]
    exact h.ids n
  · intro n k hd hh
    rw [hfsid]
    exact h.handles n k hd hh
  · simp only [share,hrecord,hlive,hft,PrivateVolume.after,Option.map_some]
    simp [hsys,Drive.patch]
  · intro n hn
    have hdisk : dno n ≠ dno m := fun he => hn (hdno he)
    simp only [share,hrecord,hlive]
    simp [hsys,Drive.patch,hn,hdisk]

theorem Tidy.undriven (h : Tidy dno s) {fat' : FatState (c.fatFs Mnt)} (hkept : s.fat.Kept fat')
    (hsys : fat'.sys = s.fat.sys) :
    Tidy dno { s with fat := fat' } ∧ ∀ n,share dno { s with fat := fat' } n = s.share dno n := by
  have hlive : ∀ h,fat'.live h = s.fat.live h := by
    intro h
    rw [FatState.live,hsys]
    rfl
  refine ⟨⟨hkept.described h.described,?_,?_,?_,?_⟩,?_⟩
  · simpa only [hsys] using h.mounted
  · simpa only [hsys] using h.serves
  · simpa only [hsys] using h.ids
  · simpa only [hsys] using h.handles
  · intro n
    simp only [share,hlive,hsys]

section Handles

variable {k : Nat} {o : Option (VfsHandle c Mnt)}

theorem Tidy.setHandle (h : Tidy dno s) (ho : ∀ hd ∈ o,
      (hd.fd.file.fs = none ∨ hd.fd.file.fs = some m) ∧ hd.fd.file.id ≤ s.fat.sys.fsid) :
    Tidy dno (s.setHandle m k o) := by
  refine ⟨h.described,h.mounted,h.serves,h.ids,?_⟩
  intro n j hd hh
  by_cases hn : n = m
  · subst hn
    by_cases hj : j = k
    · subst hj
      exact ho hd (by simpa [NumberedVfs.setHandle] using hh)
    · exact h.handles n j hd (by simpa [NumberedVfs.setHandle,hj] using hh)
  · exact h.handles n j hd (by simpa [NumberedVfs.setHandle,hn] using hh)

theorem share_setHandle (s : NumberedVfs c Mnt) : share dno (s.setHandle m k o) m =
    (s.share dno m).setHandle k (o.map fun h => ⟨h.flags,s.fat.live h,h.fd.file.body⟩) := by
  simp only [share,NumberedVfs.setHandle,PrivateVolume.setHandle,Function.update_self]
  congr 1
  funext j
  by_cases hj : j = k
  · subst hj
    simp
  · simp [hj]

theorem share_setHandle_ne (s : NumberedVfs c Mnt) {n : Mnt} (hn : n ≠ m) :
    share dno (s.setHandle m k o) n = s.share dno n := by
  simp [share,NumberedVfs.setHandle,hn]

variable {a b : Nat}

/-- The counters are no part of the invariant. -/
theorem Tidy.setCounts (h : Tidy dno s) : Tidy dno (s.setCounts m a b) :=
  ⟨h.described,h.mounted,h.serves,h.ids,h.handles⟩

theorem share_setCounts (s : NumberedVfs c Mnt) :
    share dno (s.setCounts m a b) m = (s.share dno m).setCounts a b := by
  simp [share,NumberedVfs.setCounts,PrivateVolume.setCounts]

theorem share_setCounts_ne (s : NumberedVfs c Mnt) {n : Mnt} (hn : n ≠ m) :
    share dno (s.setCounts m a b) n = s.share dno n := by
  simp [share,NumberedVfs.setCounts,hn]

end Handles

/-- A live object belongs to a mounted volume. -/
theorem Tidy.live (h : Tidy dno s) {k : Nat} {hd : VfsHandle c Mnt}
    (hh : s.handles m k = some hd) {n : Mnt} {ft : FatType}
    (hval : Drive.validate s.fat.sys hd.fd.file = some (n,ft)) :
    n = m ∧ s.mounted m = true ∧ (s.fat.sys.record m).fsType = some ft := by
  cases hfs : hd.fd.file.fs with
  | none => simp [Drive.validate,hfs] at hval
  | some n' =>
    have hn' : n' = m := by
      have howner := (h.handles m k hd hh).1
      rw [hfs] at howner
      simpa using howner
    subst hn'
    cases hft : (s.fat.sys.record n').fsType with
    | none => simp [Drive.validate,hfs,hft] at hval
    | some ft' =>
      simp only [Drive.validate,hfs,hft] at hval
      split at hval
      · obtain ⟨rfl,rfl⟩ := Prod.mk.inj (Option.some.inj hval)
        refine ⟨rfl,?_,rfl⟩
        rw [h.mounted,hft]
        rfl
      · cases hval

/-- A call with an object of the mount. -/
theorem Tidy.object (hdno : Function.Injective dno) (h : Tidy dno s) {k : Nat}
    {hd : VfsHandle c Mnt} (hh : s.handles m k = some hd) {α : Type} {fail a : α}
    {f : c.Obj → OnVolume c.Disk c.Vol (α × c.Obj)} {obj' : FatObject Mnt c.Obj}
    {fat' : FatState (c.fatFs Mnt)} (hkept : s.fat.Kept fat')
    (hobj : Drive.onObject hd.fd.file fail f s.fat.sys = (a,obj',fat'.sys)) :
    Tidy dno { s with fat := fat' } ∧
      (s.share dno m).object ⟨hd.flags,s.fat.live hd,hd.fd.file.body⟩ fail f =
        ((a,obj'.body),share dno { s with fat := fat' } m) ∧
      (∀ n,n ≠ m → share dno { s with fat := fat' } n = s.share dno n) ∧
      fat'.sys.fsid = s.fat.sys.fsid ∧ obj' = { hd.fd.file with body := obj'.body } ∧
      ∀ hd',fat'.live hd' = s.fat.live hd' := by
  cases hval : Drive.validate s.fat.sys hd.fd.file with
  | none =>
    have hdead : s.fat.live hd = false := by simp [FatState.live,hval]
    rw [Drive.onObject_dead hval] at hobj
    simp only [Prod.mk.injEq] at hobj
    obtain ⟨rfl,rfl,hsys⟩ := hobj
    obtain ⟨htidy,hshare⟩ := h.undriven hkept hsys.symm
    refine ⟨htidy,?_,fun n _ => hshare n,by rw [← hsys],rfl,?_⟩
    · simp only [PrivateVolume.object,hdead,hshare]
    · intro hd'
      rw [FatState.live,← hsys]
      rfl
  | some v =>
    obtain ⟨n,ft⟩ := v
    obtain ⟨rfl,hm,hft⟩ := h.live hh hval
    have hlive : s.fat.live hd = true := by simp [FatState.live,hval]
    rw [Drive.onObject_live (h.serves n hm).2 hval] at hobj
    simp only [Prod.mk.injEq] at hobj
    obtain ⟨rfl,rfl,hsys⟩ := hobj
    obtain ⟨htidy,hshare,hothers⟩ := h.patched hdno hkept hsys.symm hft
    refine ⟨htidy,?_,hothers,by rw [← hsys]; rfl,rfl,?_⟩
    · rw [hshare]
      simp only [PrivateVolume.object,hlive,share,hft,Option.map_some]
    · intro hd'
      rw [FatState.live,← hsys,Drive.validate_patch]
      rfl

/-- The object that the call handed back is stored in the descriptor. -/
theorem Tidy.store {s : NumberedVfs c Mnt} (h : Tidy dno s) {k : Nat} {hd : VfsHandle c Mnt}
    (hh : s.handles m k = some hd) {obj : FatObject Mnt c.Obj}
    (hobj : obj = { hd.fd.file with body := obj.body }) :
    Tidy dno (s.setHandle m k (some { hd with fd := { hd.fd with file := obj } })) ∧
      share dno (s.setHandle m k (some { hd with fd := { hd.fd with file := obj } })) m =
        (s.share dno m).setHandle k (some ⟨hd.flags,s.fat.live hd,obj.body⟩) := by
  have howner := h.handles m k hd hh
  have hfs : obj.fs = hd.fd.file.fs := by rw [hobj]
  have hid : obj.id = hd.fd.file.id := by rw [hobj]
  have hlive : s.fat.live { hd with fd := { hd.fd with file := obj } } = s.fat.live hd := by
    simp only [FatState.live,Drive.validate,hfs,hid]
  constructor
  · apply h.setHandle
    intro hd' hmem
    obtain rfl := Option.some.inj hmem
    simpa only [hfs,hid] using howner
  · rw [share_setHandle,Option.map_some,hlive]

theorem share_handles {s : NumberedVfs c Mnt} {k : Nat} : (s.share dno m).handles k =
    (s.handles m k).map fun h => ⟨h.flags,s.fat.live h,h.fd.file.body⟩ := rfl

/-- A call with a path of a mounted volume. -/
theorem Tidy.call (hdno : Function.Injective dno) (h : Tidy dno s) (hm : s.mounted m = true)
    {path : CStr} {f : List Char → OnVolume c.Disk c.Vol FResult} {r : FResult}
    {fat' : FatState (c.fatFs Mnt)} (hkept : s.fat.Kept fat')
    (hcall : Drive.onPath path id f s.fat.sys = (r,fat'.sys)) :
    Tidy dno { s with fat := fat' } ∧
      (s.share dno m).call path.chars f =
        (⟨fatfsErrToErrno r,[]⟩,share dno { s with fat := fat' } m) ∧
      (∀ n,n ≠ m → share dno { s with fat := fat' } n = s.share dno n) ∧
      fat'.sys.fsid = s.fat.sys.fsid := by
  obtain ⟨ft,hft⟩ := h.fsType hm
  obtain ⟨hfs,hdisk⟩ := h.serves m hm
  rw [Drive.onPath_eq hfs hft hdisk] at hcall
  simp only [Prod.mk.injEq] at hcall
  obtain ⟨rfl,hsys⟩ := hcall
  obtain ⟨htidy,hshare,hothers⟩ := h.patched hdno hkept hsys.symm hft
  refine ⟨htidy,?_,hothers,by rw [← hsys]; rfl⟩
  rw [hshare]
  simp only [PrivateVolume.call,share,hft,Option.map_some]

/-- The share of a mount that is not mounted has no volume. -/
theorem Tidy.share_none (h : Tidy dno s) (hm : s.mounted m = false) :
    (s.share dno m).vol = none := by
  simp [share,h.unmounted hm]

/-! What is left of the shares and the invariant when no volume is mounted. -/

/-- No object is live without a mounted volume. -/
theorem live_idle {fat : FatState (c.fatFs Mnt)} (hidle : ∀ n,(fat.sys.record n).fsType = none)
    (hd : VfsHandle c Mnt) : fat.live hd = false := by
  cases hfs : hd.fd.file.fs with
  | none => simp [FatState.live,Drive.validate,hfs]
  | some n => simp [FatState.live,Drive.validate,hfs,hidle n]

/-- No other mount is mounted. -/
def Alone (s : NumberedVfs c Mnt) (m : Mnt) : Prop := ∀ n,n ≠ m → s.mounted n = false

theorem Alone.idle (h : s.Alone m) (hm : s.mounted m = false) (n : Mnt) : s.mounted n = false := by
  by_cases hn : n = m
  · rw [hn,hm]
  · exact h n hn

section Idle

variable (hdno : Function.Injective dno) (h : Tidy dno s) (hidle : ∀ n,s.mounted n = false)
  {fat' : FatState (c.fatFs Mnt)} (hkept : s.fat.Kept fat') {disk : c.Disk}
  (hdisks : fat'.sys.disks = Function.update s.fat.sys.disks (dno m) disk)

include hdno h hidle hkept hdisks

theorem Tidy.idle (hnone : ∀ n,(fat'.sys.record n).fsType = none)
    (hids : ∀ n,(fat'.sys.record n).id ≤ fat'.sys.fsid)
    (hfsid : fat'.sys.fsid = s.fat.sys.fsid) :
    Tidy dno { s with fat := fat' } ∧
      share dno { s with fat := fat' } m = { s.share dno m with disk := disk } ∧
      ∀ n,n ≠ m → share dno { s with fat := fat' } n = s.share dno n := by
  have hnone₀ : ∀ n,(s.fat.sys.record n).fsType = none := fun n => h.unmounted (hidle n)
  refine ⟨⟨hkept.described h.described,?_,?_,hids,?_⟩,?_,?_⟩
  · intro n
    simp [hnone,hidle]
  · intro n hn
    simp [hidle] at hn
  · intro n k hd hh
    rw [hfsid]
    exact h.handles n k hd hh
  · simp [share,hnone,hnone₀,live_idle hnone,live_idle hnone₀,hdisks]
  · intro n hn
    have hne : dno n ≠ dno m := fun he => hn (hdno he)
    simp [share,hnone,hnone₀,live_idle hnone,live_idle hnone₀,hdisks,hne]

theorem Tidy.served {ft : FatType} {vol : c.Vol}
    (hrecord : fat'.sys.record m = ⟨some ft,s.fat.sys.fsid + 1,vol⟩)
    (hothers : ∀ n,n ≠ m → fat'.sys.record n = s.fat.sys.record n)
    (hfs : fat'.sys.fatFs = some m) (hdisk : fat'.sys.fatDisk = some (dno m))
    (hfsid : fat'.sys.fsid = s.fat.sys.fsid + 1) :
    Tidy dno { s with fat := fat',mounted := Function.update s.mounted m true } ∧
      share dno { s with fat := fat',mounted := Function.update s.mounted m true } m =
        (s.share dno m).after ft vol disk ∧
      ∀ n,n ≠ m → share dno
        { s with fat := fat',mounted := Function.update s.mounted m true } n = s.share dno n := by
  have hnone₀ : ∀ n,(s.fat.sys.record n).fsType = none := fun n => h.unmounted (hidle n)
  have hnone : ∀ n,n ≠ m → (fat'.sys.record n).fsType = none := by
    intro n hn
    rw [hothers n hn]
    exact hnone₀ n
  -- the id is new, so no object of an earlier mount comes back to life
  have hlive : ∀ n k hd,s.handles n k = some hd → fat'.live hd = false := by
    intro n k hd hh
    obtain ⟨howner,hid⟩ := h.handles n k hd hh
    rcases howner with hnull | howner
    · simp [FatState.live,Drive.validate,hnull]
    · by_cases hn : n = m
      · subst hn
        have hne : hd.fd.file.id ≠ s.fat.sys.fsid + 1 := by omega
        simp [FatState.live,Drive.validate,howner,hrecord,hne]
      · simp [FatState.live,Drive.validate,howner,hnone n hn]
  have hhandles : ∀ n,(fun k => (s.handles n k).map fun hd =>
      (⟨hd.flags,fat'.live hd,hd.fd.file.body⟩ : PrivateHandle c)) = (s.share dno n).handles := by
    intro n
    funext k
    cases hh : s.handles n k with
    | none => simp [share,hh]
    | some hd => simp [share,hh,hlive n k hd hh,live_idle hnone₀]
  refine ⟨⟨hkept.described h.described,?_,?_,?_,?_⟩,?_,?_⟩
  · intro n
    by_cases hn : n = m
    · subst hn
      simp [hrecord]
    · simp [hn,hnone n hn,hidle]
  · intro n hn
    by_cases he : n = m
    · subst he
      exact ⟨hfs,hdisk⟩
    · simp [he,hidle] at hn
  · intro n
    by_cases hn : n = m
    · subst hn
      simp [hrecord,hfsid]
    · have hid := h.ids n
      simp only [hothers n hn,hfsid]
      omega
  · intro n k hd hh
    obtain ⟨howner,hid⟩ := h.handles n k hd hh
    exact ⟨howner,by simp only [hfsid]; omega⟩
  · simpa [share,hrecord,hdisks,PrivateVolume.after] using hhandles m
  · intro n hn
    have hne : dno n ≠ dno m := fun he => hn (hdno he)
    simpa [share,hnone n hn,hnone₀,hdisks,hne] using hhandles n

end Idle

/-- The served volume is unmounted: its objects die. -/
theorem Tidy.unserved (h : Tidy dno s) (hm : s.mounted m = true)
    {fat' : FatState (c.fatFs Mnt)} (hkept : s.fat.Kept fat')
    (hdisks : fat'.sys.disks = s.fat.sys.disks) (hrecord : fat'.sys.record m = ⟨none,0,c.zeroVol⟩)
    (hothers : ∀ n,n ≠ m → fat'.sys.record n = s.fat.sys.record n)
    (hfsid : fat'.sys.fsid = s.fat.sys.fsid) :
    Tidy dno { s with fat := fat',mounted := Function.update s.mounted m false } ∧
      share dno { s with fat := fat',mounted := Function.update s.mounted m false } m =
        { s.share dno m with
          vol := none
          handles := fun k => ((s.share dno m).handles k).map fun h => { h with live := false } } ∧
      ∀ n,n ≠ m → share dno
        { s with fat := fat',mounted := Function.update s.mounted m false } n = s.share dno n := by
  have hidle : ∀ n,n ≠ m → s.mounted n = false := by
    intro n hn
    by_contra hmounted
    have hfs := (h.serves n (Bool.not_eq_false _ ▸ hmounted)).1
    rw [(h.serves m hm).1] at hfs
    exact hn (Option.some.inj hfs).symm
  have hnone : ∀ n,(fat'.sys.record n).fsType = none := by
    intro n
    by_cases hn : n = m
    · subst hn
      rw [hrecord]
    · rw [hothers n hn]
      exact h.unmounted (hidle n hn)
  refine ⟨⟨hkept.described h.described,?_,?_,?_,?_⟩,?_,?_⟩
  · intro n
    by_cases hn : n = m
    · subst hn
      simp [hnone]
    · simp [hn,hnone,hidle n hn]
  · intro n hn
    by_cases he : n = m
    · subst he
      simp at hn
    · simp [he,hidle n he] at hn
  · intro n
    by_cases hn : n = m
    · subst hn
      simp [hrecord]
    · simp only [hothers n hn,hfsid]
      exact h.ids n
  · intro n k hd hh
    rw [hfsid]
    exact h.handles n k hd hh
  · simp [share,hrecord,hdisks,live_idle hnone,Function.comp_def]
  · intro n hn
    have hhandles : (fun k => (s.handles n k).map fun hd =>
        (⟨hd.flags,fat'.live hd,hd.fd.file.body⟩ : PrivateHandle c)) = (s.share dno n).handles := by
      funext k
      cases hh : s.handles n k with
      | none => simp [share,hh]
      | some hd =>
        have hlive : s.fat.live hd = false := by
          rcases (h.handles n k hd hh).1 with hnull | howner
          · simp [FatState.live,Drive.validate,hnull]
          · simp [FatState.live,Drive.validate,howner,h.unmounted (hidle n hn)]
        simp [share,hh,live_idle hnone,hlive]
    simpa [share,hothers n hn,hdisks] using hhandles

end NumberedVfs

end UcVfs
