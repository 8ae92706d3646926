import Mathlib.Logic.Function.Basic

/-!
# Library — file contents and file systems

Contents are byte strings, names are C strings, and a file system says for each
name which file it denotes, if any. A C string is the list of its characters
without the terminating NUL; one `Char` stands for one `char`.
-/

namespace Library

/-- A byte string. -/
abbrev Bytes := List UInt8

/-- A C string, without its terminating NUL. -/
abbrev CString := List Char

/-- The regular files, by name. -/
abbrev FileSystem := CString → Option Bytes

namespace FileSystem

/-- Give the file `name` the content `bytes`, creating it if need be. -/
def put (fs : FileSystem) (name : CString) (bytes : Bytes) : FileSystem :=
  Function.update fs name (some bytes)

@[simp] theorem put_same (fs : FileSystem) (name : CString) (bytes : Bytes) :
    fs.put name bytes name = some bytes := by
  simp [put]

theorem put_of_ne (fs : FileSystem) {name other : CString} (bytes : Bytes)
    (h : other ≠ name) : fs.put name bytes other = fs other := by
  simp [put, h]

end FileSystem

end Library
