import CppAst.FileSystem.System

namespace CppAst

namespace FileSystem

def namesTo (fs : FileSystem) : (depth : Nat) → (directory : Inode) → List String
  | 0, _ => []
  | depth + 1, directory =>
    match fs.object directory with
    | some (.directory parent) =>
      match fs.entries.find? fun e ↦ e.1.directory = parent && e.2 = directory with
      | some (place, _) => fs.namesTo depth parent ++ [place.name]
      | none => []
    | _ => []

def workingPath (fs : FileSystem) : Path :=
  .ofPieces true ((fs.namesTo fs.objects.length fs.workingDirectory).map String.toList)

end FileSystem

def temporaryName (n : Nat) : String :=
  let digits := Nat.toDigits 10 n
  ".tmp" ++ String.ofList (List.replicate (6 - digits.length) '0' ++ digits)

/-- A system with room for all files, on which everything is permitted. Temporary files are opened
by paths that start at the root, and these may be too long. -/
def System.standard : System where
  refuses
    | .createTemporary directory name, fs =>
      let path := (fs.workingPath.join directory).join ⟨name⟩
      if FileSystem.longestPath < path.text.utf8ByteSize then some .nameTooLong else none
    | _, _ => none
  stops _ _ _ := none
  draw _ fs := temporaryName fs.fresh

end CppAst
