import UcVfs.Fatfs.Sharing

/-!
# Calls on their own share

As long as at most one mount uses the drive at a time, each call does to the share of its
mount what it would do to a private volume, and nothing to the other shares.
-/

namespace UcVfs

open Framework

variable {c : FatCore} {Mnt : Type} [DecidableEq Mnt] {dno : Mnt → Fin 2}

namespace NumberedVfs

variable {s : NumberedVfs c Mnt} {m : Mnt}

variable (dno) in
/-- The call did to the share of its mount what it does to a private volume, and nothing to
the others; a mount took one id. -/
structure Simulates (s s' : NumberedVfs c Mnt) (m : Mnt) (op : VolOp) (r : VolResult) : Prop where
  tidy : Tidy dno s'
  own : PrivateVolume.exec op (s.share dno m) = (r,s'.share dno m)
  others : ∀ n,n ≠ m → s'.share dno n = s.share dno n
  fsid : s'.fat.sys.fsid = s.fat.sys.fsid + if op = .mount ∧ r.res = 0 then 1 else 0

/-- A call that ends before it gets to the driver. -/
theorem Simulates.refused {op : VolOp} {r : VolResult} (h : Tidy dno s)
    (hown : PrivateVolume.exec op (s.share dno m) = (r,s.share dno m))
    (hres : r.res ≠ 0) : Simulates dno s s m op r :=
  ⟨h,hown,fun _ _ => rfl,by simp [hres]⟩

/-! How the driver functions run. -/

theorem unlink_run (fat : FatState (c.fatFs Mnt)) (m : Mnt) (name : CStr) :
    ∃ r fat',(Fatfs.unlink m name).run FatAct.exec fat = some (fatfsErrToErrno r,fat') ∧
      fat.Kept fat' ∧
      Drive.onPath ((fat.descs m).builtPath name) id c.unlink fat.sys = (r,fat'.sys) := by
  refine ⟨_,_,by simp only [Fatfs.unlink,Prog.act_bind,Prog.run,FatAct.exec]; rfl,
    .built m name rfl,?_⟩
  simp [FatState.called,FatfsDesc.builtPath]

theorem rename_run (fat : FatState (c.fatFs Mnt)) (m : Mnt) (fromPath toPath : CStr) :
    ∃ r fat',(Fatfs.rename m fromPath toPath).run FatAct.exec fat =
        some (fatfsErrToErrno r,fat') ∧
      fat.Kept fat' ∧
      Drive.fRename ((fat.descs m).builtPath fromPath) (renameBuff (fat.descs m) toPath) fat.sys =
        (r,fat'.sys) := by
  refine ⟨_,_,by simp only [Fatfs.rename,Prog.act_bind,Prog.run,FatAct.exec]; rfl,
    .built m fromPath rfl,?_⟩
  simp [FatState.called,FatfsDesc.builtPath,FatfsDesc.buildAbsPath,renameBuff]

theorem open_run (fat : FatState (c.fatFs Mnt)) (m : Mnt) (name : CStr) (flags : Nat) :
    ∃ r file fname fat',(Fatfs.open_ m ⟨(c.fatFs Mnt).zeroFil,[]⟩ name flags).run FatAct.exec fat =
        some ((fatfsErrToErrno r,⟨file,fname⟩),fat') ∧
      fat.Kept fat' ∧
      Drive.openObject ((fat.descs m).builtPath name) ⟨none,0,c.zeroObj⟩
        (fun rest => c.open_ rest (Fatfs.openFlags flags)) fat.sys = (r,file,fat'.sys) := by
  refine ⟨_,_,_,_,by simp only [Fatfs.open_,Prog.act_bind,Prog.run,FatAct.exec]; rfl,
    .built m name rfl,?_⟩
  simp [FatState.called,FatfsDesc.builtPath]

theorem ramdiskOpen_fin (no : Fin 2) : ramdiskOpen no = some no := by
  simp [ramdiskOpen,no.isLt]

/-- The volume string of `_format`. -/
def volumeStr : CStr :=
  CStr.ofList (snprintf (List.replicate TEST_FATFS_MAX_VOL_STR_LEN nul) TEST_FATFS_MAX_VOL_STR_LEN
    [.uint 0,.lit [':','/']])

theorem getLdnumber_volumeStr : getLdnumber volumeStr.chars = some ['/'] := by
  decide +kernel

theorem format_run {fat : FatState (c.fatFs Mnt)} (hfat : fat.Described dno) (m : Mnt) :
    ∃ r fat',(Fatfs.format m).run FatAct.exec fat = some (fatfsErrToErrno r,fat') ∧
      fat.Kept fat' ∧
      Drive.fMkfs volumeStr { fat.sys with fatDisk := some (dno m) } = (r,fat'.sys) := by
  have hopen : ramdiskOpen (fat.descs m).dno = some (dno m) := by
    rw [hfat.diskNo]
    exact ramdiskOpen_fin _
  let v := Drive.fMkfs volumeStr { fat.sys with fatDisk := some (dno m) }
  refine ⟨v.1,{ fat with sys := v.2,calls := .mkfs volumeStr :: fat.calls },?_,.same rfl,rfl⟩
  simp only [Fatfs.format,Fatfs.init,Prog.act_bind,Prog.step_bind,Prog.run,FatAct.exec,hopen,
    Option.isSome_some,if_true,Prog.pure_eq,Prog.ret_bind,ne_eq,not_true_eq_false,if_false,
    hfat.volIdx,FatState.called]
  rfl

theorem mount_run {fat : FatState (c.fatFs Mnt)} (hfat : fat.Described dno) (m : Mnt) :
    ∃ r fat',(Fatfs.mount m).run FatAct.exec fat = some (fatfsErrToErrno r,fat') ∧
      fat.Kept fat' ∧
      Drive.fMount m ((fat.descs m).builtPath (CStr.ofList []))
        (Drive.setRecord { fat.sys with fatDisk := some (dno m) } m ⟨none,0,c.zeroVol⟩) =
          (r,fat'.sys) := by
  have hopen : ramdiskOpen (fat.descs m).dno = some (dno m) := by
    rw [hfat.diskNo]
    exact ramdiskOpen_fin _
  let path := (fat.descs m).builtPath (CStr.ofList [])
  let v := Drive.fMount m path
    (Drive.setRecord { fat.sys with fatDisk := some (dno m) } m ⟨none,0,c.zeroVol⟩)
  let descs := Function.update fat.descs m ((fat.descs m).buildAbsPath (CStr.ofList []))
  have hpath : (descs m).absPath = path := by
    simp only [descs,Function.update_self]
    rfl
  refine ⟨v.1,{ fat with descs := descs,sys := v.2,calls := .mount path :: fat.calls },?_,
    .built m (CStr.ofList []) rfl,rfl⟩
  simp only [Fatfs.mount,Fatfs.init,Prog.act_bind,Prog.step_bind,Prog.run,FatAct.exec,hopen,
    Option.isSome_some,if_true,Prog.pure_eq,Prog.ret_bind,ne_eq,not_true_eq_false,if_false,
    FatState.called]
  rw [show (Function.update fat.descs m ((fat.descs m).buildAbsPath (CStr.ofList [])) m).absPath =
    path from hpath]

theorem umount_run {fat : FatState (c.fatFs Mnt)} {m : Mnt} {sys : Drive c Mnt}
    (hunmount : Drive.fUnmount ((fat.descs m).builtPath (CStr.ofList [])) fat.sys = (.ok,sys)) :
    ∃ fat',(Fatfs.umount m).run FatAct.exec fat = some (fatfsErrToErrno .ok,fat') ∧
      fat.Kept fat' ∧ fat'.sys = Drive.setRecord sys m ⟨none,0,c.zeroVol⟩ := by
  let path := (fat.descs m).builtPath (CStr.ofList [])
  let descs := Function.update fat.descs m ((fat.descs m).buildAbsPath (CStr.ofList []))
  have hpath : (descs m).absPath = path := by
    simp only [descs,Function.update_self]
    rfl
  refine ⟨{ fat with
      descs := descs
      sys := Drive.setRecord sys m ⟨none,0,c.zeroVol⟩
      calls := .unmount path :: fat.calls },?_,.built m (CStr.ofList []) rfl,rfl⟩
  simp only [Fatfs.umount,Prog.act_bind,Prog.run,FatAct.exec]
  rw [show (Function.update fat.descs m ((fat.descs m).buildAbsPath (CStr.ofList [])) m).absPath =
    path from hpath]
  simp only [path,hunmount,if_true,FatState.called,Prog.pure_eq,Prog.run]
  rfl

theorem read_run (fat : FatState (c.fatFs Mnt)) (fd : FatfsFileDesc (c.fatFs Mnt).Fil)
    (count : Nat) :
    ∃ r file fat',(Fatfs.read fd count).run FatAct.exec fat =
        some (((if r.1 ≠ .ok then fatfsErrToErrno r.1 else r.2.length,r.2),{ fd with file := file }),
          fat') ∧
      fat.Kept fat' ∧
      Drive.onObject fd.file (.invalidObject,[]) (c.read count) fat.sys = (r,file,fat'.sys) := by
  let v := Drive.onObject fd.file (.invalidObject,[]) (c.read count) fat.sys
  refine ⟨v.1,v.2.1,{ fat with sys := v.2.2 },?_,.same rfl,rfl⟩
  simp only [Fatfs.read,Prog.act_bind,Prog.run,FatAct.exec]
  by_cases hres : v.1.1 = .ok
  · rw [if_neg (not_not.mpr hres),if_neg (not_not.mpr hres)]
    rfl
  · rw [if_pos hres,if_pos hres]
    rfl

theorem write_run (fat : FatState (c.fatFs Mnt)) (fd : FatfsFileDesc (c.fatFs Mnt).Fil)
    (src : List UInt8) :
    ∃ r file fat',(Fatfs.write fd src).run FatAct.exec fat =
        some ((if r.1 ≠ .ok then fatfsErrToErrno r.1 else r.2,{ fd with file := file }),fat') ∧
      fat.Kept fat' ∧
      Drive.onObject fd.file (.invalidObject,0) (c.write src) fat.sys = (r,file,fat'.sys) := by
  let v := Drive.onObject fd.file (.invalidObject,0) (c.write src) fat.sys
  refine ⟨v.1,v.2.1,{ fat with sys := v.2.2 },?_,.same rfl,rfl⟩
  simp only [Fatfs.write,Prog.act_bind,Prog.run,FatAct.exec]
  by_cases hres : v.1.1 = .ok
  · rw [if_neg (not_not.mpr hres),if_neg (not_not.mpr hres)]
    rfl
  · rw [if_pos hres,if_pos hres]
    rfl

theorem close_run (fat : FatState (c.fatFs Mnt)) (fd : FatfsFileDesc (c.fatFs Mnt).Fil) :
    ∃ r file fat',(Fatfs.close fd).run FatAct.exec fat =
        some ((fatfsErrToErrno r,{ fd with file := file }),fat') ∧
      fat.Kept fat' ∧ Drive.fClose fd.file c.sync fat.sys = (r,file,fat'.sys) :=
  ⟨_,_,_,rfl,.same rfl,rfl⟩

section Calls

variable (hdno : Function.Injective dno) (h : Tidy dno s)

include hdno h

theorem unlink_simulates (name : CStr) :
    ∃ r s',s.vfsUnlink m name = some (r,s') ∧ Simulates dno s s' m (.unlink name) r := by
  have hpath : ((s.fat.descs m).builtPath name).chars = absPathOf name :=
    FatfsDesc.builtPath_chars (h.described.buff m) name
  cases hm : s.mounted m with
  | false =>
    refine ⟨_,s,by simp only [vfsUnlink,hm]; rfl,.refused h ?_ (by decide)⟩
    simp only [PrivateVolume.exec,PrivateVolume.call,h.share_none hm]
  | true =>
    obtain ⟨r,fat',hrun,hkept,hcall⟩ := unlink_run s.fat m name
    obtain ⟨htidy,hown,hothers,hfsid⟩ := h.call hdno hm hkept hcall
    refine ⟨_,_,by simp only [vfsUnlink,hm,drive,hrun]; rfl,htidy,?_,hothers,by simp [hfsid]⟩
    rw [← hown,hpath]
    rfl

theorem rename_simulates (fromPath toPath : CStr) :
    ∃ r s',s.vfsRename m fromPath toPath = some (r,s') ∧
      Simulates dno s s' m (.rename fromPath toPath) r := by
  have hpath : ((s.fat.descs m).builtPath fromPath).chars = absPathOf fromPath :=
    FatfsDesc.builtPath_chars (h.described.buff m) fromPath
  have hpathTo : (renameBuff (s.fat.descs m) toPath).chars = absPathToOf toPath :=
    renameBuff_chars (h.described.volIdx m) toPath
  cases hm : s.mounted m with
  | false =>
    refine ⟨_,s,by simp only [vfsRename,hm]; rfl,.refused h ?_ (by decide)⟩
    simp only [PrivateVolume.exec,PrivateVolume.call,h.share_none hm]
  | true =>
    obtain ⟨r,fat',hrun,hkept,hcall⟩ := rename_run s.fat m fromPath toPath
    obtain ⟨htidy,hown,hothers,hfsid⟩ := h.call hdno hm hkept hcall
    refine ⟨_,_,by simp only [vfsRename,hm,drive,hrun]; rfl,htidy,?_,hothers,by simp [hfsid]⟩
    rw [← hown,hpath,hpathTo]
    rfl

theorem open_simulates [Fintype Mnt] (name : CStr) (flags : Nat)
    (hfree : s.mounted m = true → ¬s.TableFull) :
    ∃ r s',s.vfsOpen m name flags = some (r,s') ∧
      Simulates dno s s' m (.open_ name flags) r := by
  have hpath : ((s.fat.descs m).builtPath name).chars = absPathOf name :=
    FatfsDesc.builtPath_chars (h.described.buff m) name
  cases hm : s.mounted m with
  | false =>
    refine ⟨_,s,by simp only [vfsOpen,hm]; rfl,.refused h ?_ (by decide)⟩
    simp only [PrivateVolume.exec,PrivateVolume.open_,h.share_none hm]
  | true =>
    obtain ⟨ft,hft⟩ := h.fsType hm
    obtain ⟨hfs,hdisk⟩ := h.serves m hm
    obtain ⟨r,file,fname,fat',hrun,hkept,hopen⟩ := open_run s.fat m name flags
    obtain ⟨file',heq,hfile⟩ := Drive.openObject_eq hfs hft hdisk
      ((s.fat.descs m).builtPath name) ⟨none,0,c.zeroObj⟩ c.zeroObj
      (fun rest => c.open_ rest (Fatfs.openFlags flags))
    rw [heq,hpath] at hopen
    rw [hpath] at hfile
    simp only [Prod.mk.injEq] at hopen
    obtain ⟨hr,rfl,hsys⟩ := hopen
    obtain ⟨htidy,hshare,hothers⟩ := h.patched hdno hkept hsys.symm hft
    have hsame : fat'.sys.fsid = s.fat.sys.fsid := by rw [← hsys]; rfl
    have hown : PrivateVolume.exec (.open_ name flags) (s.share dno m) =
        if r = .ok then
          (⟨s.opened m,[]⟩,((share dno { s with fat := fat' } m).setHandle (s.opened m)
            (some ⟨flags,true,(atPath (absPathOf name) (fun e => (e,c.zeroObj))
              (fun rest => c.open_ rest (Fatfs.openFlags flags)) ft (s.fat.sys.record m).vol
              (s.fat.sys.disks (dno m))).1.2⟩)).setCounts (s.openFiles m + 1) (s.opened m + 1))
        else
          (⟨fatfsErrToErrno r,[]⟩,share dno { s with fat := fat' } m) := by
      rw [hshare,← hr]
      simp only [PrivateVolume.exec,PrivateVolume.open_,share,hft,Option.map_some]
      rfl
    by_cases hok : r = .ok
    · rw [if_pos hok] at hown
      have hfile := hfile (hr.trans hok)
      have howner : file'.fs = some m := by rw [hfile]
      have hid : file'.id = (s.fat.sys.record m).id := by rw [hfile]
      have hlive : fat'.live ⟨flags,⟨file',fname⟩⟩ = true := by
        rw [FatState.live,← hsys,Drive.validate_patch]
        simp only [Drive.validate,howner,hft,hid,if_true,Option.isSome_some]
      have hexec : s.vfsOpen m name flags = some (⟨s.opened m,[]⟩,
          (({ s with fat := fat' } : NumberedVfs c Mnt).setHandle m (s.opened m)
            (some ⟨flags,⟨file',fname⟩⟩)).setCounts m (s.openFiles m + 1) (s.opened m + 1)) := by
        simp [vfsOpen,hm,hfree,drive,hrun,hok,fatfsErrToErrno]
      refine ⟨_,_,hexec,?_,?_,?_,?_⟩
      · apply Tidy.setCounts
        apply htidy.setHandle
        intro hd hmem
        obtain rfl := Option.some.inj hmem
        refine ⟨Or.inr howner,?_⟩
        change file'.id ≤ fat'.sys.fsid
        rw [hid,hsame]
        exact h.ids m
      · rw [hown,share_setCounts,share_setHandle,Option.map_some,hlive,hfile]
      · intro n hn
        rw [share_setCounts_ne _ hn,share_setHandle_ne _ hn]
        exact hothers n hn
      · simp only [reduceCtorEq,false_and,if_false,Nat.add_zero]
        exact hsame
    · rw [if_neg hok] at hown
      have hexec : s.vfsOpen m name flags =
          some (⟨fatfsErrToErrno r,[]⟩,{ s with fat := fat' }) := by
        simp [vfsOpen,hm,hfree,drive,hrun,fatfsErrToErrno_neg hok]
      exact ⟨_,_,hexec,htidy,hown,hothers,by simpa using hsame⟩

theorem read_simulates (k count : Nat) :
    ∃ r s',s.vfsRead m k count = some (r,s') ∧ Simulates dno s s' m (.read k count) r := by
  cases hh : s.handles m k with
  | none =>
    refine ⟨_,s,by simp only [vfsRead,hh]; rfl,.refused h ?_ (by decide)⟩
    simp only [PrivateVolume.exec,PrivateVolume.read,share_handles,hh,Option.map_none]
  | some hd =>
    by_cases hacc : hd.flags &&& O_ACCMODE ≠ O_RDONLY ∧ hd.flags &&& O_ACCMODE ≠ O_RDWR
    · refine ⟨_,s,by simp only [vfsRead,hh,if_pos hacc]; rfl,.refused h ?_ (by decide)⟩
      simp only [PrivateVolume.exec,PrivateVolume.read,share_handles,hh,Option.map_some,if_pos hacc]
    · obtain ⟨r,file,fat',hrun,hkept,hobj⟩ := read_run s.fat hd.fd count
      obtain ⟨htidy,hown,hothers,hfsid,hbody,hlive⟩ := h.object hdno hh hkept hobj
      obtain ⟨htidy',hshare⟩ := htidy.store hh hbody
      refine ⟨_,_,by simp only [vfsRead,hh,if_neg hacc,drive,hrun]; rfl,htidy',?_,?_,?_⟩
      · rw [hshare]
        simp only [PrivateVolume.exec,PrivateVolume.read,share_handles,hh,Option.map_some,
          if_neg hacc,hown,hlive]
        by_cases hres : r.1 = .ok
        · simp [hres]
        · simp [hres]
      · intro n hn
        rw [share_setHandle_ne _ hn]
        exact hothers n hn
      · simp only [reduceCtorEq,false_and,if_false,Nat.add_zero]
        exact hfsid

theorem write_simulates (k : Nat) (src : List UInt8) :
    ∃ r s',s.vfsWrite m k src = some (r,s') ∧ Simulates dno s s' m (.write k src) r := by
  cases hh : s.handles m k with
  | none =>
    refine ⟨_,s,by simp only [vfsWrite,hh]; rfl,.refused h ?_ (by decide)⟩
    simp only [PrivateVolume.exec,PrivateVolume.write,share_handles,hh,Option.map_none]
  | some hd =>
    by_cases hacc : hd.flags &&& O_ACCMODE ≠ O_WRONLY ∧ hd.flags &&& O_ACCMODE ≠ O_RDWR
    · refine ⟨_,s,by simp only [vfsWrite,hh,if_pos hacc]; rfl,.refused h ?_ (by decide)⟩
      simp only [PrivateVolume.exec,PrivateVolume.write,share_handles,hh,Option.map_some,
        if_pos hacc]
    · obtain ⟨r,file,fat',hrun,hkept,hobj⟩ := write_run s.fat hd.fd src
      obtain ⟨htidy,hown,hothers,hfsid,hbody,hlive⟩ := h.object hdno hh hkept hobj
      obtain ⟨htidy',hshare⟩ := htidy.store hh hbody
      refine ⟨_,_,by simp only [vfsWrite,hh,if_neg hacc,drive,hrun]; rfl,htidy',?_,?_,?_⟩
      · rw [hshare]
        simp only [PrivateVolume.exec,PrivateVolume.write,share_handles,hh,Option.map_some,
          if_neg hacc,hown,hlive]
        by_cases hres : r.1 = .ok
        · simp [hres]
        · simp [hres]
      · intro n hn
        rw [share_setHandle_ne _ hn]
        exact hothers n hn
      · simp only [reduceCtorEq,false_and,if_false,Nat.add_zero]
        exact hfsid

theorem close_simulates (k : Nat) :
    ∃ r s',s.vfsClose m k = some (r,s') ∧ Simulates dno s s' m (.close k) r := by
  cases hh : s.handles m k with
  | none =>
    refine ⟨_,s,by simp only [vfsClose,hh]; rfl,.refused h ?_ (by decide)⟩
    simp only [PrivateVolume.exec,PrivateVolume.close,share_handles,hh,Option.map_none]
  | some hd =>
    obtain ⟨r,file,fat',hrun,hkept,hclose⟩ := close_run s.fat hd.fd
    have hdisk : ∀ v,Drive.validate s.fat.sys hd.fd.file = some v →
        s.fat.sys.fatDisk = some (dno m) := by
      intro v hval
      exact (h.serves m (h.live hh hval).2.1).2
    have heq := Drive.fClose_eq hdisk c.sync
    rw [hclose] at heq
    have hobj : Drive.onObject hd.fd.file .invalidObject c.sync s.fat.sys =
        (r,(Drive.onObject hd.fd.file .invalidObject c.sync s.fat.sys).2.1,fat'.sys) := by
      exact Prod.ext heq.1.symm (Prod.ext rfl heq.2.symm)
    obtain ⟨htidy,hown,hothers,hfsid,hbody,hlive⟩ := h.object hdno hh hkept hobj
    refine ⟨_,_,by simp only [vfsClose,hh,drive,hrun]; rfl,?_,?_,?_,?_⟩
    · exact (htidy.setHandle (k := k) (o := none) nofun).setCounts
    · simp only [PrivateVolume.exec,PrivateVolume.close,share_handles,hh,Option.map_some,hown]
      rw [share_setCounts,share_setHandle]
      rfl
    · intro n hn
      rw [share_setCounts_ne _ hn,share_setHandle_ne _ hn]
      exact hothers n hn
    · simp only [reduceCtorEq,false_and,if_false,Nat.add_zero]
      exact hfsid

theorem format_simulates (halone : s.Alone m) :
    ∃ r s',s.vfsFormat m = some (r,s') ∧ Simulates dno s s' m .format r := by
  cases hm : s.mounted m with
  | true =>
    refine ⟨_,s,by simp only [vfsFormat,hm]; rfl,.refused h ?_ (by decide)⟩
    simp only [PrivateVolume.exec,PrivateVolume.format,h.share_vol,hm,if_true]
  | false =>
    have hidle := halone.idle hm
    have hnone : ∀ n,(s.fat.sys.record n).fsType = none := fun n => h.unmounted (hidle n)
    obtain ⟨r,fat',hrun,hkept,hmkfs⟩ := format_run h.described m
    rw [Drive.fMkfs_idle (s := { s.fat.sys with fatDisk := some (dno m) }) hnone
      getLdnumber_volumeStr rfl] at hmkfs
    simp only [Prod.mk.injEq] at hmkfs
    obtain ⟨rfl,hsys⟩ := hmkfs
    obtain ⟨htidy,hshare,hothers⟩ := h.idle hdno hidle (m := m) hkept
      (by rw [← hsys]) (by rw [← hsys]; exact hnone) (by rw [← hsys]; exact h.ids) (by rw [← hsys])
    refine ⟨_,_,by simp only [vfsFormat,hm,drive,hrun]; rfl,htidy,?_,hothers,?_⟩
    · rw [hshare]
      simp [PrivateVolume.exec,PrivateVolume.format,share,hnone]
    · simp only [reduceCtorEq,false_and,if_false,Nat.add_zero]
      rw [← hsys]

theorem mount_simulates (halone : s.Alone m) (hfsid : s.fat.sys.fsid + 1 < 2 ^ 16) :
    ∃ r s',s.vfsMount m = some (r,s') ∧ Simulates dno s s' m .mount r := by
  cases hm : s.mounted m with
  | true =>
    refine ⟨_,s,by simp only [vfsMount,hm]; rfl,.refused h ?_ (by decide)⟩
    simp only [PrivateVolume.exec,PrivateVolume.mount,h.share_vol,hm,if_true]
  | false =>
    have hidle := halone.idle hm
    have hnone : ∀ n,(s.fat.sys.record n).fsType = none := fun n => h.unmounted (hidle n)
    have hpath : getLdnumber ((s.fat.descs m).builtPath (CStr.ofList [])).chars = some ['/'] := by
      rw [FatfsDesc.builtPath_chars (h.described.buff m)]
      decide
    obtain ⟨r,fat',hrun,hkept,hmount⟩ := mount_run h.described m
    let sys := Drive.setRecord { s.fat.sys with fatDisk := some (dno m) } m ⟨none,0,c.zeroVol⟩
    have hcleared : ∀ n,(sys.record n).fsType = none := by
      intro n
      by_cases hn : n = m
      · subst hn
        simp [sys,Drive.setRecord]
      · simp [sys,Drive.setRecord,hn,hnone n]
    have hclearedIds : ∀ n,(sys.record n).id ≤ s.fat.sys.fsid := by
      intro n
      by_cases hn : n = m
      · subst hn
        simp [sys,Drive.setRecord]
      · simpa [sys,Drive.setRecord,hn] using h.ids n
    rw [Drive.fMount_idle (s := sys) hcleared hpath rfl hfsid] at hmount
    have hvol : (sys.record m).vol = c.zeroVol := by simp [sys,Drive.setRecord]
    simp only [hvol] at hmount
    have hdisks : sys.disks (dno m) = s.fat.sys.disks (dno m) := rfl
    rw [hdisks] at hmount
    have hnovol := h.share_none hm
    have hdisk : (s.share dno m).disk = s.fat.sys.disks (dno m) := rfl
    rcases hfmt : c.analyze c.zeroVol (some (s.fat.sys.disks (dno m))) with ⟨fmt,vol,d⟩
    cases fmt with
    | error e =>
      simp only [hfmt,Prod.mk.injEq] at hmount
      obtain ⟨rfl,hsys⟩ := hmount
      have hrecord : ∀ n,(fat'.sys.record n).fsType = none := by
        intro n
        rw [← hsys]
        exact (Drive.patch_fsType sys m (dno m) vol (d.getD (s.fat.sys.disks (dno m))) n).trans
          (hcleared n)
      have hids : ∀ n,(fat'.sys.record n).id ≤ fat'.sys.fsid := by
        intro n
        rw [← hsys]
        exact (Drive.patch_id sys m (dno m) vol (d.getD (s.fat.sys.disks (dno m))) n).trans_le
          (hclearedIds n)
      obtain ⟨htidy,hshare,hothers⟩ :=
        h.idle hdno hidle (m := m) hkept (by rw [← hsys]; rfl) hrecord hids (by rw [← hsys]; rfl)
      have hexec : s.vfsMount m = some (⟨fatfsErrToErrno e.val,[]⟩,{ s with fat := fat' }) := by
        simp [vfsMount,hm,drive,hrun,fatfsErrToErrno_neg e.property]
      refine ⟨_,_,hexec,htidy,?_,hothers,?_⟩
      · rw [hshare]
        simp [PrivateVolume.exec,PrivateVolume.mount,hnovol,hdisk,hfmt]
      · have hneg := fatfsErrToErrno_neg e.property
        have hne : fatfsErrToErrno e.val ≠ 0 := by omega
        simp only [hne,and_false,if_false,Nat.add_zero]
        rw [← hsys]
        rfl
    | ok ft =>
      simp only [hfmt,Prod.mk.injEq] at hmount
      obtain ⟨rfl,hsys⟩ := hmount
      have hothers : ∀ n,n ≠ m → fat'.sys.record n = s.fat.sys.record n := by
        intro n hn
        rw [← hsys]
        simp [Drive.setRecord,Drive.patch,sys,hn]
      have hrecord : fat'.sys.record m = ⟨some ft,s.fat.sys.fsid + 1,vol⟩ := by
        rw [← hsys]
        simp [Drive.setRecord,sys]
      obtain ⟨htidy,hshare,hothers⟩ := h.served hdno hidle hkept (by rw [← hsys]; rfl) hrecord
        hothers (by rw [← hsys]; rfl) (by rw [← hsys]; rfl) (by rw [← hsys]; rfl)
      have hexec : s.vfsMount m = some (⟨0,[]⟩,
          { s with fat := fat',mounted := Function.update s.mounted m true }) := by
        simp [vfsMount,hm,drive,hrun,fatfsErrToErrno]
      refine ⟨_,_,hexec,htidy,?_,hothers,?_⟩
      · rw [hshare]
        simp [PrivateVolume.exec,PrivateVolume.mount,hnovol,hdisk,hfmt]
      · rw [← hsys]
        rfl

omit hdno in
theorem umount_simulates (force : Bool) :
    ∃ r s',s.vfsUmount m force = some (r,s') ∧ Simulates dno s s' m (.umount force) r := by
  have hpath : getLdnumber ((s.fat.descs m).builtPath (CStr.ofList [])).chars = some ['/'] := by
    rw [FatfsDesc.builtPath_chars (h.described.buff m)]
    decide
  cases hm : s.mounted m with
  | false =>
    refine ⟨_,s,by simp only [vfsUmount,hm]; rfl,.refused h ?_ (by decide)⟩
    simp [PrivateVolume.exec,PrivateVolume.umount,h.share_vol,hm]
  | true =>
    by_cases hbusy : 0 < s.openFiles m ∧ ¬force
    · refine ⟨_,s,by simp only [vfsUmount,hm,not_true_eq_false,if_false,if_pos hbusy]; rfl,
        .refused h ?_ (by decide)⟩
      simp only [PrivateVolume.exec,PrivateVolume.umount,h.share_vol,hm,not_true_eq_false,if_false]
      rw [if_pos (show 0 < (s.share dno m).openFiles ∧ ¬force from hbusy)]
    · obtain ⟨fat',hrun,hkept,hsys⟩ :=
        umount_run (Drive.fUnmount_eq (h.serves m hm).1 hpath)
      obtain ⟨htidy,hshare,hothers⟩ := h.unserved hm hkept (by rw [hsys]; rfl)
        (by rw [hsys]; simp [Drive.setRecord])
        (fun n hn => by rw [hsys]; simp [Drive.setRecord,Drive.invalidate,hn]) (by rw [hsys]; rfl)
      have hexec : s.vfsUmount m force = some (⟨0,[]⟩,
          { s with fat := fat',mounted := Function.update s.mounted m false }) := by
        simp only [vfsUmount,hm,not_true_eq_false,if_false,if_neg hbusy,drive,hrun]
        rfl
      refine ⟨_,_,hexec,htidy,?_,hothers,?_⟩
      · rw [hshare]
        simp only [PrivateVolume.exec,PrivateVolume.umount,h.share_vol,hm,not_true_eq_false,if_false]
        rw [if_neg (show ¬(0 < (s.share dno m).openFiles ∧ ¬force) from hbusy)]
      · simp only [reduceCtorEq,false_and,if_false,Nat.add_zero]
        rw [hsys]
        rfl

end Calls

end NumberedVfs

end UcVfs
