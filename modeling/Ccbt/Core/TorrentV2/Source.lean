import Mathlib.Data.List.Infix
import Ccbt.Python.Path

/-!
# What a torrent is made from

A source without symbolic links, as the torrent generators of
`core/torrent_v2.py` see it. The base path is the source if that is a directory,
and otherwise its parent. Nothing changes in the file system while a torrent is
generated, and no system call fails.

The string of a path can name something else once its backslashes have been
replaced. What the file system answers is therefore a function of the string; it
is only known for the files of the source.
-/

namespace Ccbt

open Python

namespace TorrentV2

/-- A regular file: its path below the base path, and its contents. -/
structure SourceFile where
  path : List Str
  content : Bytes

/-- What becomes of a file of the tree that is not found where it is expected. -/
inductive Absent
  /-- It is a relative path, and it does not exist below the base path either: it is skipped. -/
  | skipped
  /-- A `TorrentError` is raised. -/
  | failed
  /-- It is a relative path that exists below the base path. -/
  | resolved (content : Bytes)

structure Source where
  /-- `source.name` -/
  name : Str
  /-- `source.parent.name` -/
  parentName : Str
  /-- `source.is_dir()` -/
  isDir : Bool
  /-- The files in the order in which `rglob` yields them, or the source itself. -/
  files : List SourceFile
  /-- The contents of `base_path / path`, if that is a regular file. -/
  read : Str → Option Bytes
  /-- What `traverse_and_hash` does where `base_path / path` is no regular file. -/
  absent : Str → Absent
  /-- `str((base_path / path).resolve().relative_to(base_path.resolve()))`, if that is defined. -/
  resolve : Str → Option Str
  single : isDir = false → ∃ content, files = [⟨[name], content⟩]
  path_ne_nil : ∀ f ∈ files, f.path ≠ []
  isName : ∀ f ∈ files, ∀ part ∈ f.path, IsName part
  /-- No file stands at or below the path of another one. -/
  separate : files.Pairwise (fun f g => ¬f.path <+: g.path ∧ ¬g.path <+: f.path)
  /-- The size of a file is a signed number of 64 bits. -/
  size_lt : ∀ f ∈ files, f.content.length < 2 ^ 63
  read_file : ∀ f ∈ files, read (joinSlash f.path) = some f.content
  resolve_file : ∀ f ∈ files, resolve (joinSlash f.path) = some (joinSlash f.path)

/-- The arguments of the generators, and the time. -/
structure Options where
  trackers : List Str
  webSeeds : List Str
  comment : Option Str
  createdBy : Str
  pieceLength : Option Nat
  isPrivate : Bool
  /-- `int(time.time())` -/
  now : Int

namespace Source

variable (s : Source)

/-- `name = source.name if source.is_dir() or source.parent.name else source.stem` -/
def torrentName : Str := if s.isDir || !s.parentName.isEmpty then s.name else stem s.name

def collectFiles : List (Str × Nat) :=
  if s.isDir then
    s.files.map (fun f => (replaceBackslash (joinSlash f.path), f.content.length))
  else s.files.map (fun f => (s.name, f.content.length))

def totalSize : Nat := (s.files.map (fun f => f.content.length)).sum

/-- The piece length: the one asked for, or one that depends on the total size. -/
def pieceLength (requested : Option Nat) : Nat :=
  match requested with
  | some p => p
  | none =>
    if s.totalSize < 16 * 1024 * 1024 then 16 * 1024
    else if s.totalSize < 512 * 1024 * 1024 then 256 * 1024
    else 1024 * 1024

/-- No component of a path has a backslash. -/
def NoBackslash : Prop := ∀ f ∈ s.files, ∀ part ∈ f.path, '\\' ∉ part

variable {s}

theorem noBackslash_joinSlash (h : s.NoBackslash) {f : SourceFile} (hf : f ∈ s.files) :
    '\\' ∉ joinSlash f.path := by
  intro hmem
  obtain hslash | ⟨part, hpart, hc⟩ := mem_joinSlash hmem
  · exact absurd hslash (by decide)
  · exact h f hf part hpart hc

/-- Without backslashes the files are listed under their paths. -/
theorem collectFiles_eq (h : s.NoBackslash) :
    s.collectFiles = s.files.map (fun f => (joinSlash f.path, f.content.length)) := by
  rw [collectFiles]
  split
  · apply List.map_congr_left
    intro f hf
    rw [replaceBackslash_eq_self (noBackslash_joinSlash h hf)]
  · next hdir =>
    obtain ⟨content, hfiles⟩ := s.single (Bool.eq_false_of_not_eq_true hdir)
    rw [hfiles]
    simp

end Source

end TorrentV2

end Ccbt
