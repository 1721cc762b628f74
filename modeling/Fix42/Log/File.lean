import Mathlib.Data.Finmap
import Fix42.Lib.Shift
import Fix42.Wire.Message

/-!
# The log file

`File::Init` with `moveFile`, which makes room for a new `base.0.log`. `Rotated` is what that is for. A
`Session` is the program from one start to the next.

A pathname is the directory it is in and what is behind its last `/`.
-/

namespace Fix42

namespace Log

open Wire (toChars)

/-! ## Pathnames -/

structure Pathname (Dir : Type) where
  parentPath : Dir
  filename : Wire.Bytes
  deriving DecidableEq

/-- The character `.`. -/
def period : UInt8 := 46

/-- `stem` of a file name: what is before its last period, unless that starts the name. -/
def stem (filename : Wire.Bytes) : Wire.Bytes :=
  if filename = [period, period] then filename
  else
    match (filename.reverse.dropWhile (· ≠ period)).tail.reverse with
    | [] => filename
    | s => s

variable {Dir : Type}

/-- `std::format("{}.{}.log", path, n)`. -/
def Pathname.numbered (path : Pathname Dir) (n : Nat) : Pathname Dir :=
  { path with filename := path.filename ++ (period :: (toChars n ++ Wire.ascii ".log")) }

/-! ## Files -/

/-- The directories there are, and the contents of the files. -/
structure FileSystem (Dir : Type) where
  directories : Finset Dir
  files : Finmap fun _ : Pathname Dir => Wire.Bytes

variable [DecidableEq Dir]

namespace FileSystem

/-- `std::filesystem::exists`. -/
def fileExists (fs : FileSystem Dir) (path : Pathname Dir) : Bool := path ∈ fs.files

/-- `std::filesystem::create_directories`, which succeeds or not. -/
def createDirectories (fs : FileSystem Dir) (success : Bool) (dir : Dir) : FileSystem Dir :=
  if success then { fs with directories := insert dir fs.directories } else fs

/-- `std::rename`: the target is replaced; without a source it fails. -/
def rename (fs : FileSystem Dir) (old new : Pathname Dir) : FileSystem Dir :=
  match fs.files.lookup old with
  | none => fs
  | some content => { fs with files := (fs.files.erase old).insert new content }

/-- `std::ofstream::open`: the file is empty then. -/
def openFile (fs : FileSystem Dir) (path : Pathname Dir) : FileSystem Dir :=
  if path.parentPath ∈ fs.directories then { fs with files := fs.files.insert path [] } else fs

/-- The contents of the files `base.n.log`. -/
def logs (fs : FileSystem Dir) (base : Pathname Dir) (n : Nat) : Option Wire.Bytes :=
  fs.files.lookup (base.numbered n)

end FileSystem

/-! ## Rotation -/

namespace File

/-- `File::moveFile`, to a depth. -/
def moveFile : Nat → FileSystem Dir → Pathname Dir → Nat → Option (FileSystem Dir)
  | 0, _, _, _ => none
  | depth + 1, fs, path, it =>
    let fullpath := path.numbered it
    (if fs.fileExists fullpath then moveFile depth fs path (it + 1) else some fs).map fun fs =>
      fs.rename fullpath (path.numbered (it + 1))

/-- The rotation in `File::Init`. Each call of `moveFile` but the last finds a file, so a depth of one
more than there are files is enough. -/
def rotate (fs : FileSystem Dir) (path : Pathname Dir) : Option (FileSystem Dir) :=
  if fs.fileExists path then
    moveFile (fs.files.keys.card + 1) fs ⟨path.parentPath, stem (stem path.filename)⟩ 0
  else some fs

/-- `File::Init`; `created` says whether the directory can be created. -/
def init (created : Bool) (fs : FileSystem Dir) (file : Pathname Dir) : Option (FileSystem Dir) :=
  let path := file.numbered 0
  let fs := if path.parentPath ∈ fs.directories then fs
    else fs.createDirectories created path.parentPath
  (rotate fs path).map (·.openFile path)

end File

/-- The logs of the run that starts at number 0 have been moved one number up, and nothing else has been
done to any file. -/
structure Rotated (base : Pathname Dir) (fs fs' : FileSystem Dir) : Prop where
  moved : Shift.Moved (fs.logs base) (fs'.logs base)
  others : ∀ path, (∀ n, path ≠ base.numbered n) → fs'.files.lookup path = fs.files.lookup path

/-- The program starts, and of the logs it writes only the one it has opened. -/
def Session (file : Pathname Dir) (fs fs' : FileSystem Dir) : Prop :=
  ∃ created started, File.init created fs file = some started ∧
    ∀ n ≠ 0, fs'.logs file n = started.logs file n

end Log

end Fix42
