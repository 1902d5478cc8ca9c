import UcVfs.Framework.Enumeration
import UcVfs.Spiffs.Adapter

/-!
# The files of a SPIFFS volume

`SPIFFS_readdir` and its visitor, over the object lookup of all blocks and the page headers that
the lookup entries stand for.
-/

namespace UcVfs

open Framework

/-- The string that is copied for a record. -/
def SpiffsDirent.text (e : SpiffsDirent) : List Char := (e.name.drop 1).takeWhile (· ≠ nul)

namespace Spiffs

def SPIFFS_OBJ_ID_IX_FLAG : Nat := 2 ^ 31
def SPIFFS_OBJ_ID_DELETED : Nat := 0
def SPIFFS_OBJ_ID_FREE : Nat := 2 ^ 32 - 1
def SPIFFS_OBJ_NAME_LEN : Nat := 32
def SPIFFS_VIS_END : Int := Driver.SPIFFS_ERR_INTERNAL - 22

/-! Flags of a page header; a flag that is set is 0. -/

def SPIFFS_PH_FLAG_FINAL : Nat := 2
def SPIFFS_PH_FLAG_DELET : Nat := 128
def SPIFFS_PH_FLAG_IXDELE : Nat := 64

/-- An object lookup entry, with the header of its page as an index header. -/
structure LuEntry where
  objId : Nat
  spanIx : Nat
  flags : Nat
  name : List Char
  deriving DecidableEq

/-- `strcpy` into an array. -/
def strcpy (dst src : List Char) : List Char :=
  let chars := src.takeWhile (· ≠ nul)
  chars ++ nul :: dst.drop (chars.length + 1)

/-- `spiffs_read_dir_v`; `none` is `SPIFFS_VIS_COUNTINUE`. -/
def readDirV (dirent : SpiffsDirent) (e : LuEntry) : Option SpiffsDirent :=
  if e.objId = SPIFFS_OBJ_ID_FREE ∨ e.objId = SPIFFS_OBJ_ID_DELETED ∨
      e.objId &&& SPIFFS_OBJ_ID_IX_FLAG = 0 then none
  else if e.objId &&& SPIFFS_OBJ_ID_IX_FLAG ≠ 0 ∧ e.spanIx = 0 ∧
      e.flags &&& (SPIFFS_PH_FLAG_DELET ||| SPIFFS_PH_FLAG_FINAL ||| SPIFFS_PH_FLAG_IXDELE) =
        SPIFFS_PH_FLAG_DELET ||| SPIFFS_PH_FLAG_IXDELE then
    some ⟨e.objId,strcpy dirent.name e.name⟩
  else none

/-- `spiffs_DIR`. -/
structure DirObj where
  block : ℕ
  entry : ℕ
  deriving DecidableEq

def withoutIxFlag (e : SpiffsDirent) : SpiffsDirent :=
  { e with objId := e.objId &&& (2 ^ 32 - 1 ^^^ SPIFFS_OBJ_ID_IX_FLAG) }

/-- `SPIFFS_readdir`; `none` is a null pointer with the error `SPIFFS_VIS_END`. -/
def SPIFFS_readdir (blocks : List (List LuEntry)) (e : SpiffsDirent) (d : DirObj) :
    Option (SpiffsDirent × DirObj) :=
  match findInBlocks (readDirV e) (blocks.drop d.block) d.block d.entry with
  | some (e,bix,entry) => some (withoutIxFlag e,⟨bix,entry + 1⟩)
  | none => none

/-- The path of a file on a mount, with the slash that ends the mount point. The path of the
mount point itself has none. -/
structure FilePath where
  path : CStr
  short : path.length < SPIFFS_OBJ_NAME_LEN
  slash : path.chars = [] ∨ path.at_ 0 = '/'

/-- The name in the directory. -/
def FilePath.name (p : FilePath) : List Char := p.path.chars.drop 1

/-- The name of an index header that is neither deleted nor being deleted. -/
def LuEntry.header (e : LuEntry) : Option (List Char) :=
  (readDirV ⟨0,[]⟩ e).map fun d => d.name.takeWhile (· ≠ nul)

/-- The object lookup of a volume with the paths of its files. -/
structure Lookup where
  blocks : List (List LuEntry)
  files : List FilePath
  stored : blocks.flatten.filterMap LuEntry.header = files.map (·.path.chars)

/-- What a directory record holds of a path. -/
def direntName (stack : List Char) (p : FilePath) : List Char :=
  p.path.chars ++ nul :: stack.drop (p.path.length + 1)

theorem FilePath.name_length (p : FilePath) : p.name.length < VFS_NAME_MAX := by
  have hshort := p.short
  rw [CStr.length,SPIFFS_OBJ_NAME_LEN] at hshort
  rw [FilePath.name,List.length_drop,VFS_NAME_MAX]
  omega

theorem FilePath.name_eq_nil (p : FilePath) (h : p.path.chars = []) : p.name = [] := by
  rw [FilePath.name,h]
  rfl

theorem takeWhile_strcpy (dst src : List Char) :
    (strcpy dst src).takeWhile (· ≠ nul) = src.takeWhile (· ≠ nul) := by
  have hchars : ∀ c ∈ src.takeWhile (· ≠ nul),decide (c ≠ nul) := by
    intro c hc
    exact List.all_eq_true.mp List.all_takeWhile c hc
  rw [strcpy,List.takeWhile_append_of_pos hchars]
  simp

/-- Whether an entry is reported does not depend on the record. -/
theorem readDirV_name (e : LuEntry) (dirent : SpiffsDirent) :
    (readDirV dirent e).map (·.name) =
      e.header.map fun cs => cs ++ nul :: dirent.name.drop (cs.length + 1) := by
  simp only [LuEntry.header,readDirV]
  split
  · rfl
  · split
    · simp only [Option.map_some,takeWhile_strcpy]
      rfl
    · rfl

/-- The records that lie ahead of a directory object, made from what `e` holds. -/
def Lookup.ahead (t : Lookup) (e : SpiffsDirent) (d : DirObj) : List SpiffsDirent :=
  ((fromPlace t.blocks d.block d.entry).filterMap (readDirV e)).map withoutIxFlag

/-- `SPIFFS_readdir` reports the first record ahead, or the end. -/
theorem SPIFFS_readdir_spec (t : Lookup) (e : SpiffsDirent) (d : DirObj) :
    SPIFFS_readdir t.blocks e d = none ∧ t.ahead e d = [] ∨
      ∃ e' d',SPIFFS_readdir t.blocks e d = some (e',d') ∧ t.ahead e d = e' :: t.ahead e d' := by
  rcases findInBlocks_spec (readDirV e) t.blocks d.block d.entry with
    ⟨hfind,hnone⟩ | ⟨b,bix,ix,hfind,hsome⟩
  · left
    simp [SPIFFS_readdir,Lookup.ahead,hfind,hnone]
  · right
    refine ⟨withoutIxFlag b,⟨bix,ix + 1⟩,by rw [SPIFFS_readdir,hfind],?_⟩
    rw [Lookup.ahead,hsome]
    rfl

theorem Lookup.ahead_names (t : Lookup) (e : SpiffsDirent) :
    (t.ahead e ⟨0,0⟩).map (·.name) = t.files.map (direntName e.name) := by
  have hname : (fun d : SpiffsDirent => d.name) ∘ withoutIxFlag = fun d => d.name := rfl
  rw [ahead,fromPlace_zero,List.map_map,hname,List.map_filterMap]
  calc t.blocks.flatten.filterMap (fun a => (readDirV e a).map (·.name))
      = t.blocks.flatten.filterMap fun a =>
          a.header.map fun cs => cs ++ nul :: e.name.drop (cs.length + 1) := by
        simp only [readDirV_name]
    _ = (t.blocks.flatten.filterMap LuEntry.header).map
          fun cs => cs ++ nul :: e.name.drop (cs.length + 1) := by rw [List.map_filterMap]
    _ = t.files.map (direntName e.name) := by
        rw [t.stored,List.map_map]
        rfl

/-- For the mount point itself it is what was in the record before. -/
theorem direntName_text (e : SpiffsDirent) (p : FilePath) :
    ((direntName e.name p).drop 1).takeWhile (· ≠ nul) =
      if p.path.chars = [] then e.text else p.name := by
  cases hpath : p.path.chars with
  | nil =>
    have hlen : p.path.length = 0 := by rw [CStr.length,hpath]; rfl
    rw [if_pos rfl,direntName,hpath,hlen]
    rfl
  | cons c cs =>
    have hname : p.name = cs := by rw [FilePath.name,hpath]; rfl
    have hchars : ∀ d ∈ cs,decide (d ≠ nul) := by
      intro d hd
      refine decide_eq_true fun he => p.path.noNul ?_
      rw [hpath,← he]
      exact List.mem_cons_of_mem _ hd
    rw [if_neg (List.cons_ne_nil _ _),direntName,hpath,hname,List.cons_append,List.drop_one,
      List.tail_cons,List.takeWhile_append_of_pos hchars]
    simp

theorem Lookup.ahead_texts (t : Lookup) (e : SpiffsDirent) :
    (t.ahead e ⟨0,0⟩).map SpiffsDirent.text =
      t.files.map fun p => if p.path.chars = [] then e.text else p.name := by
  calc (t.ahead e ⟨0,0⟩).map SpiffsDirent.text
      = ((t.ahead e ⟨0,0⟩).map (·.name)).map fun cs => (cs.drop 1).takeWhile (· ≠ nul) := by
        rw [List.map_map]
        rfl
    _ = t.files.map fun p => ((direntName e.name p).drop 1).takeWhile (· ≠ nul) := by
        rw [t.ahead_names,List.map_map]
        rfl
    _ = t.files.map fun p => if p.path.chars = [] then e.text else p.name :=
        List.map_congr_left fun p _ => direntName_text e p

end Spiffs

end UcVfs
