import UcVfs.Fatfs.RootDir
import UcVfs.Fatfs.Volumes

/-!
# Volumes of one directory

The other functions of `ff.c` on the files of one directory, and FatFs over disks that hold
such a directory or nothing. `follow` says which entry a path leads to, the empty name for the
directory itself; subdirectories are empty, and directories are not listed.
-/

namespace UcVfs

open Framework

/-- `GET_FATTIME`: there is no clock, so that every entry has the same date. -/
def FAT_DATE : Nat := (2024 - 1980) <<< 9 ||| 11 <<< 5 ||| 1

section Files

variable {Name : Type}

def fRead (btr : Nat) (fp : FilObj Name) : (FResult × List UInt8) × FilObj Name :=
  if fp.flag &&& FA_READ = 0 then ((.denied,[]),fp)
  else
    let data := ((fp.buf.take fp.objsize).drop fp.fptr).take btr
    ((.ok,data),{ fp with fptr := fp.fptr + data.length })

def fWrite (buff : List UInt8) (fp : FilObj Name) : (FResult × Nat) × FilObj Name :=
  if fp.flag &&& FA_WRITE = 0 then ((.denied,0),fp)
  else
    let stop := fp.fptr + buff.length
    ((.ok,buff.length),{ fp with
      fptr := stop
      objsize := max stop fp.objsize
      buf := fp.buf.take fp.fptr ++ buff ++ fp.buf.drop stop
      flag := fp.flag ||| FA_MODIFIED })

/-- What lies between the old and the new end of a file is undefined; here it is zero. -/
def fLseek (ofs : Nat) (fp : FilObj Name) : FResult × FilObj Name :=
  let ofs := if fp.objsize < ofs ∧ fp.flag &&& FA_WRITE = 0 then fp.objsize else ofs
  let fp := { fp with fptr := ofs }
  if fp.objsize < ofs then
    (.ok,{ fp with
      objsize := ofs
      buf := fp.buf.rightpad ofs 0
      flag := fp.flag ||| FA_MODIFIED })
  else
    (.ok,fp)

variable [DecidableEq Name]

def fUnlink (name : Name) (dir : RootDir Name) : FResult × RootDir Name :=
  match dir name with
  | none => (.noFile,dir)
  | some e =>
    if e.attr &&& AM_RDO ≠ 0 then (.denied,dir) else (.ok,Function.update dir name none)

def fMkdir (name : Name) (dir : RootDir Name) : FResult × RootDir Name :=
  match dir name with
  | none => (.ok,Function.update dir name (some ⟨AM_DIR,0,[]⟩))
  | some _ => (.exist,dir)

/-- A name may be changed to itself. -/
def fRename (name newName : Name) (dir : RootDir Name) : FResult × RootDir Name :=
  match dir name with
  | none => (.noFile,dir)
  | some e =>
    if newName ≠ name ∧ (dir newName).isSome then (.exist,dir)
    else
      let attr := if e.attr &&& AM_DIR ≠ 0 then e.attr else e.attr ||| AM_ARC
      let dir := Function.update dir name none
      (.ok,Function.update dir newName (some { e with attr := attr }))

end Files

/-- A name found on a disk is a list of characters. -/
abbrev FatDir := RootDir (List Char)

def fStat (name : List Char) (dir : FatDir) : FResult × FilInfo :=
  match dir name with
  | none => (.noFile,⟨0,0,0,0,[]⟩)
  | some e => (.ok,⟨e.fileSize,FAT_DATE,0,e.attr,name⟩)

/-- Something is done with the directory of a formatted disk. -/
def onDirectory {α : Type} (fail : FResult → α) (f : FatDir → α × FatDir) :
    OnVolume (Option FatDir) Unit α
  | _,vol,some (some dir) =>
    let (a,dir) := f dir
    (a,vol,some (some dir))
  | _,vol,d => (fail .diskErr,vol,d)

variable (follow : List Char → Except FatError (List Char))

/-- Something is done with the entry that a path leads to; `origin` is the answer for the
directory itself. -/
def onEntry {α : Type} (fail : FResult → α) (origin : FResult)
    (f : List Char → FatDir → α × FatDir) (path : List Char) : OnVolume (Option FatDir) Unit α :=
  onDirectory fail fun dir =>
    match follow path with
    | .error e => (fail e.val,dir)
    | .ok [] => (fail origin,dir)
    | .ok name => f name dir

def dirCore : FatCore where
  Disk := Option FatDir
  Vol := Unit
  Obj := FilObj (List Char)
  DirObj := Unit
  zeroVol := ()
  zeroObj := ⟨none,0,0,0,[]⟩
  zeroDirObj := ()
  analyze vol d :=
    match d with
    | none => (.error ⟨.notReady,by decide⟩,vol,d)
    | some none => (.error ⟨.noFilesystem,by decide⟩,vol,d)
    | some (some _) => (.ok .fat12,vol,d)
  mkfs d :=
    match d with
    | none => (.notReady,none)
    | some _ => (.ok,some (some fun _ => none))
  open_ path mode := onEntry follow (fun e => (e,⟨none,0,0,0,[]⟩)) .invalidName
    (fun name dir => fOpen ⟨none,0,0,0,[]⟩ name mode dir) path
  read btr fp := onDirectory (fun e => ((e,[]),fp)) fun dir => (fRead btr fp,dir)
  write buff fp := onDirectory (fun e => ((e,0),fp)) fun dir => (fWrite buff fp,dir)
  sync fp := onDirectory (fun e => (e,fp)) (fSync fp)
  lseek ofs fp := onDirectory (fun e => (e,fp)) fun dir => (fLseek ofs fp,dir)
  tell fp := fp.fptr
  size fp := fp.objsize
  stat path := onEntry follow (fun e => (e,⟨0,0,0,0,[]⟩)) .invalidName
    (fun name dir => (fStat name dir,dir)) path
  unlink path := onEntry follow id .invalidName fUnlink path
  rename pathOld pathNew := onEntry follow id .invalidName
    (fun name dir =>
      match follow pathNew with
      | .error e => (e.val,dir)
      | .ok [] => (.exist,dir)
      | .ok newName => fRename name newName dir) pathOld
  mkdir path := onEntry follow id .exist fMkdir path
  opendir path := onEntry follow (fun e => (e,())) .ok
    (fun name dir =>
      match dir name with
      | some e => if e.attr &&& AM_DIR ≠ 0 then ((.ok,()),dir) else ((.noPath,()),dir)
      | none => ((.noPath,()),dir)) path
  readdir _ := onDirectory (fun e => ((e,⟨0,0,0,0,[]⟩),())) fun dir =>
    (((.ok,⟨0,0,0,0,[nul]⟩),()),dir)

/-- `follow_path` for names that are found as they are written, in the root directory. -/
def followPlain (path : List Char) : Except FatError (List Char) :=
  let name := path.dropWhile (· = '/')
  if '/' ∈ name then .error ⟨.noPath,by decide⟩ else .ok name

end UcVfs
