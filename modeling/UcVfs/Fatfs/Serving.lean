import UcVfs.Fatfs.PrivateVolume

/-!
# The drive while it serves one mount

The functions of FatFs when the record of `FatFs[0]` is mounted and `fat_disk` is its disk:
they change this record and this disk, as they would change them on a drive of their own.
-/

namespace UcVfs

variable {c : FatCore} {Mnt : Type} [DecidableEq Mnt]

namespace Drive

/-- Something was done with the volume of `m` and the disk `no`. -/
def patch (s : Drive c Mnt) (m : Mnt) (no : Fin 2) (vol : c.Vol) (disk : c.Disk) : Drive c Mnt :=
  { s with
    record := Function.update s.record m { s.record m with vol := vol }
    disks := Function.update s.disks no disk }

section Patch

variable (s : Drive c Mnt) (m : Mnt) (no : Fin 2) (vol : c.Vol) (disk : c.Disk)

theorem patch_self : s.patch m no (s.record m).vol (s.disks no) = s := by
  simp [patch]

theorem patch_fsType (n : Mnt) : ((s.patch m no vol disk).record n).fsType = (s.record n).fsType := by
  by_cases h : n = m
  · subst h
    simp [patch]
  · simp [patch,h]

theorem patch_id (n : Mnt) : ((s.patch m no vol disk).record n).id = (s.record n).id := by
  by_cases h : n = m
  · subst h
    simp [patch]
  · simp [patch,h]

theorem validate_patch {Body : Type} (obj : FatObject Mnt Body) :
    (s.patch m no vol disk).validate obj = s.validate obj := by
  cases hfs : obj.fs with
  | none => simp only [validate,hfs]
  | some n => simp only [validate,hfs,patch_fsType,patch_id]

end Patch

section Serving

variable {s : Drive c Mnt} {m : Mnt} {no : Fin 2} {ft : FatType}

theorem onVolume_eq {α : Type} (hdisk : s.fatDisk = some no) (f : OnVolume c.Disk c.Vol α) :
    s.onVolume m ft f =
      let r := OnVolume.at_ f ft (s.record m).vol (s.disks no)
      (r.1,s.patch m no r.2.1 r.2.2) := by
  have hd : s.disk = some (s.disks no) := by simp [disk,hdisk]
  simp only [onVolume,OnVolume.at_,hd]
  cases (f ft (s.record m).vol (some (s.disks no))).2.2 with
  | none => simp [setDisk,setRecord,hdisk,patch]
  | some d => simp [setDisk,setRecord,hdisk,patch]

theorem mountVolume_eq (hfs : s.fatFs = some m) (hft : (s.record m).fsType = some ft)
    (path : List Char) :
    mountVolume path s =
      match getLdnumber path with
      | none => (.error .invalidDrive,s)
      | some rest => (.ok (m,ft,rest),s) := by
  rw [mountVolume]
  cases getLdnumber path with
  | none => rfl
  | some rest => simp only [hfs,hft]

theorem onPath_eq {α : Type} (hfs : s.fatFs = some m) (hft : (s.record m).fsType = some ft)
    (hdisk : s.fatDisk = some no) (path : CStr) (fail : FResult → α)
    (f : List Char → OnVolume c.Disk c.Vol α) :
    s.onPath path fail f =
      let r := atPath path.chars fail f ft (s.record m).vol (s.disks no)
      (r.1,s.patch m no r.2.1 r.2.2) := by
  rw [onPath,mountVolume_eq hfs hft,atPath]
  cases getLdnumber path.chars with
  | none => simp only [patch_self]
  | some rest => exact onVolume_eq hdisk (f rest)

theorem openObject_eq {Body : Type} (hfs : s.fatFs = some m)
    (hft : (s.record m).fsType = some ft) (hdisk : s.fatDisk = some no) (path : CStr)
    (obj : FatObject Mnt Body) (blank : Body)
    (f : List Char → OnVolume c.Disk c.Vol (FResult × Body)) :
    ∃ obj',s.openObject path obj f =
        (let r := atPath path.chars (fun e => (e,blank)) f ft (s.record m).vol (s.disks no)
        (r.1.1,obj',s.patch m no r.2.1 r.2.2)) ∧
      ((atPath path.chars (fun e => (e,blank)) f ft (s.record m).vol (s.disks no)).1.1 = .ok →
        obj' = ⟨some m,(s.record m).id,
          (atPath path.chars (fun e => (e,blank)) f ft (s.record m).vol (s.disks no)).1.2⟩) := by
  rw [openObject,mountVolume_eq hfs hft,atPath]
  cases getLdnumber path.chars with
  | none =>
    refine ⟨{ obj with fs := none },?_,?_⟩
    · simp only [patch_self]
    · intro h
      cases h
  | some rest =>
    simp only [onVolume_eq hdisk]
    by_cases hok : (OnVolume.at_ (f rest) ft (s.record m).vol (s.disks no)).1.1 = .ok
    · rw [if_pos hok]
      exact ⟨_,rfl,fun _ => by rw [patch_id]⟩
    · rw [if_neg hok]
      exact ⟨_,rfl,fun h => absurd h hok⟩

theorem onObject_live {Body α : Type} (hdisk : s.fatDisk = some no) {obj : FatObject Mnt Body}
    (hlive : s.validate obj = some (m,ft)) (fail : α)
    (f : Body → OnVolume c.Disk c.Vol (α × Body)) :
    s.onObject obj fail f =
      let r := OnVolume.at_ (f obj.body) ft (s.record m).vol (s.disks no)
      (r.1.1,{ obj with body := r.1.2 },s.patch m no r.2.1 r.2.2) := by
  simp only [onObject,hlive,onVolume_eq hdisk]

theorem onObject_dead {Body α : Type} {obj : FatObject Mnt Body} (hdead : s.validate obj = none)
    (fail : α) (f : Body → OnVolume c.Disk c.Vol (α × Body)) :
    s.onObject obj fail f = (fail,obj,s) := by
  simp only [onObject,hdead]

/-- Closing adds nothing to the flush: an object that could be flushed can be released. -/
theorem fClose_eq {Body : Type} {obj : FatObject Mnt Body}
    (hdisk : ∀ v,s.validate obj = some v → s.fatDisk = some no)
    (sync : Body → OnVolume c.Disk c.Vol (FResult × Body)) :
    (s.fClose obj sync).1 = (s.onObject obj .invalidObject sync).1 ∧
      (s.fClose obj sync).2.2 = (s.onObject obj .invalidObject sync).2.2 := by
  cases hval : s.validate obj with
  | none =>
    simp only [fClose,onObject_dead hval]
    exact ⟨rfl,rfl⟩
  | some v =>
    obtain ⟨n,ft⟩ := v
    simp only [fClose,onObject_live (hdisk _ hval) hval]
    by_cases hok : (OnVolume.at_ (sync obj.body) ft (s.record n).vol (s.disks no)).1.1 = .ok
    · have hval' : validate s { obj with
          body := (OnVolume.at_ (sync obj.body) ft (s.record n).vol (s.disks no)).1.2 } =
            some (n,ft) := hval
      simp only [hok,if_true,release,validate_patch,hval',and_self]
    · rw [if_neg hok]
      exact ⟨rfl,rfl⟩

end Serving

section Idle

variable {s : Drive c Mnt} {m : Mnt} {no : Fin 2} {path : CStr} {rest : List Char}

theorem invalidate_idle (h : (s.record m).fsType = none) : s.invalidate m = s := by
  have hrecord : { s.record m with fsType := none } = s.record m := by rw [← h]
  simp only [invalidate,setRecord,hrecord,Function.update_eq_self]

omit [DecidableEq Mnt] in
theorem setDisk_eq (hdisk : s.fatDisk = some no) (d : Option c.Disk) :
    s.setDisk d = { s with disks := Function.update s.disks no (d.getD (s.disks no)) } := by
  cases d with
  | none => simp [setDisk]
  | some d => simp [setDisk,hdisk]

theorem fMkfs_idle (hidle : ∀ n,(s.record n).fsType = none)
    (hpath : getLdnumber path.chars = some rest) (hdisk : s.fatDisk = some no) :
    s.fMkfs path =
      let r := c.mkfs (some (s.disks no))
      (r.1,{ s with disks := Function.update s.disks no (r.2.getD (s.disks no)) }) := by
  have hd : s.disk = some (s.disks no) := by simp [disk,hdisk]
  cases hfs : s.fatFs with
  | none => simp only [fMkfs,hpath,hfs,hd,setDisk_eq hdisk]
  | some cfs => simp only [fMkfs,hpath,hfs,invalidate_idle (hidle cfs),hd,setDisk_eq hdisk]

theorem unregister_idle (hidle : ∀ n,(s.record n).fsType = none) :
    s.unregister = { s with fatFs := none } := by
  cases hfs : s.fatFs with
  | none =>
    cases s
    cases hfs
    rfl
  | some cfs => simp only [unregister,hfs,invalidate_idle (hidle cfs)]

theorem analyzeVolume_eq (hdisk : s.fatDisk = some no) (hfsid : s.fsid + 1 < 2 ^ 16) :
    s.analyzeVolume m =
      let r := c.analyze (s.record m).vol (some (s.disks no))
      let s' := s.patch m no r.2.1 (r.2.2.getD (s.disks no))
      match r.1 with
      | .error e => (.error e.val,s')
      | .ok ft => (.ok ft,{ s'.setRecord m ⟨some ft,s.fsid + 1,r.2.1⟩ with fsid := s.fsid + 1 }) := by
  have hd : s.disk = some (s.disks no) := by simp [disk,hdisk]
  have hset : ∀ vol d,(s.setRecord m { s.record m with vol := vol }).setDisk d =
      s.patch m no vol (d.getD (s.disks no)) := by
    intro vol d
    exact setDisk_eq (s := s.setRecord m _) hdisk d
  simp only [analyzeVolume,hd,hset]
  cases (c.analyze (s.record m).vol (some (s.disks no))).1 with
  | error e => rfl
  | ok ft =>
    have hmod : ∀ vol d,((s.patch m no vol d).fsid + 1) % 2 ^ 16 = s.fsid + 1 := by
      intro vol d
      exact Nat.mod_eq_of_lt hfsid
    simp only [hmod]

/-- A volume is mounted while no other is: the drive serves it from then on. -/
theorem fMount_idle (hidle : ∀ n,(s.record n).fsType = none)
    (hpath : getLdnumber path.chars = some rest) (hdisk : s.fatDisk = some no)
    (hfsid : s.fsid + 1 < 2 ^ 16) :
    s.fMount m path =
      let r := c.analyze (s.record m).vol (some (s.disks no))
      let s' := { s.patch m no r.2.1 (r.2.2.getD (s.disks no)) with fatFs := some m }
      match r.1 with
      | .error e => (e.val,s')
      | .ok ft => (.ok,{ s'.setRecord m ⟨some ft,s.fsid + 1,r.2.1⟩ with fsid := s.fsid + 1 }) := by
  have hself : invalidate { s with fatFs := none } m = { s with fatFs := none } :=
    invalidate_idle (hidle m)
  simp only [fMount,hpath,unregister_idle hidle,hself,mountVolume,hidle m]
  rw [analyzeVolume_eq (s := { s with fatFs := some m }) hdisk hfsid]
  cases hfmt : (c.analyze (s.record m).vol (some (s.disks no))).1 with
  | error e => simp only [hfmt,Except.map]; rfl
  | ok ft => simp only [hfmt,Except.map]; rfl

theorem fUnmount_eq (hfs : s.fatFs = some m) (hpath : getLdnumber path.chars = some rest) :
    s.fUnmount path = (.ok,{ s.invalidate m with fatFs := none }) := by
  simp only [fUnmount,hpath,unregister,hfs]

end Idle

end Drive

end UcVfs
