import UcVfs.Fatfs.Adapter
import UcVfs.Littlefs.Adapter
import UcVfs.Spiffs.Adapter
import UcVfs.Vfs.StatFromFstat

/-!
# The driver tables

`fatfs_file_system`, `littlefs2_file_system` and `spiffs_file_system` as the VFS layer sees
them.
-/

namespace UcVfs

open Framework

/-- The mount objects, DIR objects and tasks of a system. -/
structure Host where
  Mnt : Type
  Dir : Type
  Task : Type
  decMnt : DecidableEq Mnt
  finMnt : Fintype Mnt
  decDir : DecidableEq Dir
  finDir : Fintype Dir
  decTask : DecidableEq Task
  finTask : Fintype Task

attribute [instance] Host.decMnt Host.finMnt Host.decDir Host.finDir Host.decTask Host.finTask

/-- The bytes of a `private_data` union, as one driver reads them. -/
structure Union where
  Priv : Type
  nullPtr : Priv → Priv
  zeroed : Priv

abbrev Host.world (h : Host) (Drv : Type) (u : Union) : World where
  Mnt := h.Mnt
  Dir := h.Dir
  Task := h.Task
  Drv := Drv
  Priv := u.Priv
  nullPtr := u.nullPtr
  zeroed := u.zeroed
  decMnt := h.decMnt
  finMnt := h.finMnt
  decDir := h.decDir
  finDir := h.finDir
  decTask := h.decTask
  finTask := h.finTask

/-- The functions of a driver, over a file or a directory object; `none` as a result is a fault.
Without a `stat` of its own it has `vfs_sysop_stat_from_fstat`. -/
structure Driver (Mnt File Dir Drv : Type) where
  format : Mnt → Drv → Option (Int × Drv)
  mount : Mnt → Drv → Option (Int × Drv)
  umount : Mnt → Drv → Option (Int × Drv)
  rename : Mnt → CStr → CStr → Drv → Option (Int × Drv)
  unlink : Mnt → CStr → Drv → Option (Int × Drv)
  mkdir : Option (Mnt → CStr → Drv → Option (Int × Drv))
  rmdir : Option (Mnt → CStr → Drv → Option (Int × Drv))
  stat : Option (Mnt → CStr → Stat → Drv → Option ((Int × Stat) × Drv))
  open_ : Mnt → File → CStr → Nat → Drv → Option ((Int × File) × Drv)
  close : Mnt → File → Drv → Option ((Int × File) × Drv)
  read : Mnt → File → Nat → Drv → Option (((Int × List UInt8) × File) × Drv)
  write : Mnt → File → List UInt8 → Drv → Option ((Int × File) × Drv)
  lseek : Mnt → File → Int → Int → Drv → Option ((Int × File) × Drv)
  fstat : Option (Mnt → File → Stat → Drv → Option ((Int × Stat) × Drv))
  fsync : Mnt → File → Drv → Option ((Int × File) × Drv)
  opendir : Mnt → Dir → CStr → Drv → Option ((Int × Dir) × Drv)
  readdir : Mnt → Dir → Dirent → Drv → Option (((Int × Dirent) × Dir) × Drv)
  closedir : Mnt → Dir → Drv → Option ((Int × Dir) × Drv)

namespace Driver

variable (h : Host) {File Dir Drv : Type}

/-- Objects of both kinds share one union. -/
abbrev World (nullPtr : File × Dir → File × Dir) (zeroed : File × Dir) (Drv : Type) :
    UcVfs.World :=
  h.world Drv ⟨File × Dir,nullPtr,zeroed⟩

variable {h} {nullPtr : File × Dir → File × Dir} {zeroed : File × Dir}

/-- What a file callback leaves; a null mount object is a fault like any other. -/
def fileAns (v : FileView (World h nullPtr zeroed Drv)) (drv : Drv)
    (call : h.Mnt → File → Option ((FileRet × File) × Drv)) : FileAns (World h nullPtr zeroed Drv) :=
  match v.mp.bind fun m => call m v.priv.1 with
  | some ((ret,file),drv) => ⟨ret.res,ret.data,ret.stat,v.pos,(file,v.priv.2),drv⟩
  | none => ⟨-EFAULT,[],Stat.zero,v.pos,v.priv,drv⟩

def dirAns (v : DirView (World h nullPtr zeroed Drv)) (entry : Dirent) (drv : Drv)
    (call : h.Mnt → Dir → Option (((Int × Dirent) × Dir) × Drv)) :
    DirAns (World h nullPtr zeroed Drv) :=
  match v.mp.bind fun m => call m v.priv.2 with
  | some (((res,entry),dir),drv) => ⟨res,entry,(v.priv.1,dir),drv⟩
  | none => ⟨-EFAULT,entry,v.priv,drv⟩

def fsAns (drv : Drv) (ans : Option ((Int × Stat) × Drv)) : FsAns (World h nullPtr zeroed Drv) :=
  match ans with
  | some ((res,stat),drv) => ⟨res,stat,drv⟩
  | none => ⟨-EFAULT,Stat.zero,drv⟩

/-- A result alone. -/
def resOnly {α : Type} (ans : (Int × α) × Drv) : (FileRet × α) × Drv :=
  ((⟨ans.1.1,[],Stat.zero⟩,ans.1.2),ans.2)

variable (d : Driver h.Mnt File Dir Drv)

def fileOps : FileOps (World h nullPtr zeroed Drv) where
  open_ := some fun name flags _ v drv =>
    fileAns v drv fun m file => (d.open_ m file name flags drv).map resOnly
  close := some fun v drv => fileAns v drv fun m file => (d.close m file drv).map resOnly
  fstat := d.fstat.map fun fstat v drv => fileAns v drv fun m file =>
    (fstat m file Stat.zero drv).map fun ((res,st),drv) => ((⟨res,[],st⟩,file),drv)
  lseek := some fun off whence v drv =>
    fileAns v drv fun m file => (d.lseek m file off whence drv).map resOnly
  read := some fun nbytes v drv => fileAns v drv fun m file =>
    (d.read m file nbytes drv).map fun (((res,data),file),drv) => ((⟨res,data,Stat.zero⟩,file),drv)
  write := some fun src v drv =>
    fileAns v drv fun m file => (d.write m file src drv).map resOnly
  fsync := some fun v drv => fileAns v drv fun m file => (d.fsync m file drv).map resOnly

def dirOps : DirOps (World h nullPtr zeroed Drv) where
  opendir := some fun dirname v drv => dirAns v Dirent.zero drv fun m dir =>
    (d.opendir m dir dirname drv).map fun ((res,dir),drv) => (((res,Dirent.zero),dir),drv)
  readdir := some fun entry v drv => dirAns v entry drv fun m dir => d.readdir m dir entry drv
  closedir := some fun v drv => dirAns v Dirent.zero drv fun m dir =>
    (d.closedir m dir drv).map fun ((res,dir),drv) => (((res,Dirent.zero),dir),drv)

/-- The `stat` of the table; `sp` is what `vfs_sysop_stat_from_fstat` finds in its local
objects. -/
def statAns (sp : Sysop (World h nullPtr zeroed Drv)) (path : CStr) (m : h.Mnt)
    (drv : Drv) : FsAns (World h nullPtr zeroed Drv) :=
  match d.stat with
  | some stat => fsAns drv (stat m path Stat.zero drv)
  | none =>
    let fs := ⟨some d.fileOps,some d.dirOps,none,0⟩
    (sp.statFromFstat m fs path drv).getD ⟨-EFAULT,Stat.zero,drv⟩

def fsOps (sp : Sysop (World h nullPtr zeroed Drv)) :
    FsOps (World h nullPtr zeroed Drv) where
  format := some fun m drv => fsAns drv ((d.format m drv).map fun v => ((v.1,Stat.zero),v.2))
  mount := some fun m drv => fsAns drv ((d.mount m drv).map fun v => ((v.1,Stat.zero),v.2))
  umount := some fun m drv => fsAns drv ((d.umount m drv).map fun v => ((v.1,Stat.zero),v.2))
  rename := some fun fromPath toPath m drv =>
    fsAns drv ((d.rename m fromPath toPath drv).map fun v => ((v.1,Stat.zero),v.2))
  unlink := some fun name m drv =>
    fsAns drv ((d.unlink m name drv).map fun v => ((v.1,Stat.zero),v.2))
  mkdir := d.mkdir.map fun mkdir name _ m drv =>
    fsAns drv ((mkdir m name drv).map fun v => ((v.1,Stat.zero),v.2))
  rmdir := d.rmdir.map fun rmdir name m drv =>
    fsAns drv ((rmdir m name drv).map fun v => ((v.1,Stat.zero),v.2))
  stat := some (d.statAns sp)

/-- The `vfs_file_system_t` of the driver. -/
def fileSystem (sp : Sysop (World h nullPtr zeroed Drv)) :
    FileSystem (World h nullPtr zeroed Drv) :=
  ⟨some d.fileOps,some d.dirOps,some (d.fsOps sp),0⟩

end Driver

/-! The three drivers. -/

section Tables

variable {Mnt : Type} [DecidableEq Mnt]

def fatfsDriver (ff : FatFs Mnt) :
    Driver Mnt (FatfsFileDesc ff.Fil) ff.Dir (FatState ff) where
  format m s := (Fatfs.format m).run FatAct.exec s
  mount m s := (Fatfs.mount m).run FatAct.exec s
  umount m s := (Fatfs.umount m).run FatAct.exec s
  rename m fromPath toPath s := (Fatfs.rename m fromPath toPath).run FatAct.exec s
  unlink m name s := (Fatfs.unlink m name).run FatAct.exec s
  mkdir := some fun m name s => (Fatfs.mkdir m name).run FatAct.exec s
  rmdir := some fun m name s => (Fatfs.rmdir m name).run FatAct.exec s
  stat := none
  open_ m fd name flags s := (Fatfs.open_ m fd name flags).run FatAct.exec s
  close _ fd s := (Fatfs.close fd).run FatAct.exec s
  read _ fd nbytes s := (Fatfs.read fd nbytes).run FatAct.exec s
  write _ fd src s := (Fatfs.write fd src).run FatAct.exec s
  lseek _ fd off whence s := (Fatfs.lseek fd off whence).run FatAct.exec s
  fstat := some fun m _ buf s => (Fatfs.fstat m buf).run FatAct.exec s
  fsync _ fd s := (Fatfs.fsync fd).run FatAct.exec s
  opendir m dir dirname s := (Fatfs.opendir m dir dirname).run FatAct.exec s
  readdir _ dir entry s := (Fatfs.readdir dir entry).run FatAct.exec s
  closedir _ dir s := (Fatfs.closedir dir).run FatAct.exec s

/-- `dno` is behind the mount objects here. -/
def littlefsDriver (lf : LittleFs Mnt) (dno : Mnt → UInt8) :
    Driver Mnt lf.File lf.Dir (LfsState lf) where
  format m s := (Littlefs.Driver.format m (dno m)).run LfsAct.exec s
  mount m s := (Littlefs.Driver.mount m (dno m)).run LfsAct.exec s
  umount m s := (Littlefs.Driver.umount m).run LfsAct.exec s
  rename m fromPath toPath s := (Littlefs.Driver.rename m fromPath toPath).run LfsAct.exec s
  unlink m name s := (Littlefs.Driver.unlink m name).run LfsAct.exec s
  mkdir := some fun m name s => (Littlefs.Driver.mkdir m name).run LfsAct.exec s
  rmdir := some fun m name s => (Littlefs.Driver.rmdir m name).run LfsAct.exec s
  stat := some fun m path buf s => (Littlefs.Driver.stat m path buf).run LfsAct.exec s
  open_ m fp name flags s := (Littlefs.Driver.open_ m fp name flags).run LfsAct.exec s
  close m fp s := (Littlefs.Driver.close m fp).run LfsAct.exec s
  read m fp nbytes s := (Littlefs.Driver.read m fp nbytes).run LfsAct.exec s
  write m fp src s := (Littlefs.Driver.write m fp src).run LfsAct.exec s
  lseek m fp off whence s := (Littlefs.Driver.lseek m fp off whence).run LfsAct.exec s
  fstat := none
  fsync m fp s := (Littlefs.Driver.fsync m fp).run LfsAct.exec s
  opendir m dir dirname s := (Littlefs.Driver.opendir m dir dirname).run LfsAct.exec s
  readdir m dir entry s := (Littlefs.Driver.readdir m dir entry).run LfsAct.exec s
  closedir m dir s := (Littlefs.Driver.closedir m dir).run LfsAct.exec s

def spiffsDriver (sp : SpiffsFs Mnt) : Driver Mnt Int sp.Dir (SpiffsState sp) where
  format m s := some (Spiffs.Driver.format m s)
  mount m s := some (Spiffs.Driver.mount m s)
  umount m s := some (Spiffs.Driver.umount m s)
  rename m fromPath toPath s := some (Spiffs.Driver.rename m fromPath toPath s)
  unlink m name s := some (Spiffs.Driver.unlink m name s)
  mkdir := none
  rmdir := none
  stat := none
  open_ m value name flags s := some (Spiffs.Driver.open_ m value name flags s)
  close m value s :=
    let (ret,s) := Spiffs.Driver.close m value s
    some ((ret,value),s)
  read m value nbytes s :=
    let (ans,s) := Spiffs.Driver.read m value nbytes s
    some ((ans,value),s)
  write m value src s :=
    let (ret,s) := Spiffs.Driver.write m value src s
    some ((ret,value),s)
  lseek m value off whence s :=
    let (ret,s) := Spiffs.Driver.lseek m value off whence s
    some ((ret,value),s)
  fstat := some fun m value buf s => some (Spiffs.Driver.fstat m value buf s)
  fsync m value s :=
    let (ret,s) := Spiffs.Driver.fsync m value s
    some ((ret,value),s)
  opendir m dir dirname s := some (Spiffs.Driver.opendir m dir dirname s)
  readdir _ dir entry s := some (Spiffs.Driver.readdir dir entry s)
  closedir _ dir s :=
    let (ret,s) := Spiffs.Driver.closedir dir s
    some ((ret,dir),s)

end Tables

end UcVfs
