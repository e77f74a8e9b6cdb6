/-
This file reads named files from one directory.
-/

import Brainfuck.Text.Quoted

namespace Brainfuck

/-- The directory holds only files, and its ancestors hold nothing else that can be seen. -/
structure Folder where
  files : List (List Char × Array UInt8)

inductive FileError where
  | missing
  | isDirectory
  | notDirectory
  | tooLong
  | nullByte
  | other (reason : String)
  deriving DecidableEq

namespace FileError

def reason : FileError → String
  | missing => "No such file or directory"
  | isDirectory => "Is a directory"
  | notDirectory => "Not a directory"
  | tooLong => "File name too long"
  | nullByte => "embedded null byte"
  | other reason => reason

/-- Only the usual errors show their number. -/
def number? : FileError → Option Nat
  | missing => some 2
  | isDirectory => some 21
  | notDirectory => some 20
  | tooLong => some 36
  | nullByte => none
  | other _ => none

end FileError

namespace Folder

/-- Empty parts and single dots do not move. -/
def parts (path : List Char) : List (List Char) :=
  (path.splitOn '/').filter fun part => part ≠ [] ∧ part ≠ ['.']

/-- Exactly two leading slashes are kept, and any other number of them counts as one. -/
def root (path : List Char) : List Char :=
  match (path.takeWhile (· == '/')).length with
  | 0 => []
  | 2 => ['/', '/']
  | _ => ['/']

def normalise (path : List Char) : List Char :=
  match root path ++ List.intercalate ['/'] (parts path) with
  | [] => ['.']
  | text => text

inductive Place where
  | here
  | above
  | file (content : Array UInt8)

def maxPartLength : Nat := 255

def maxPathLength : Nat := 4095

/-- Only the directory itself has anything to find. -/
def find (folder : Folder) (place : Place) (part : List Char) : Except FileError Place :=
  if part = ['.', '.'] then .ok .above
  else if maxPartLength < part.length then .error .tooLong
  else
    match place, folder.files.lookup part with
    | .here, some content => .ok (.file content)
    | _, _ => .error .missing

/-- A file has no parts, not even a parent. -/
def enter (folder : Folder) (place : Place) (part : List Char) : Except FileError Place :=
  match place with
  | .file _ => .error .notDirectory
  | place => folder.find place part

def walk (folder : Folder) (path : List Char) : Except FileError Place :=
  (parts path).foldlM folder.enter (if root path = [] then .here else .above)

/-- The form of the path is looked at before any directory is. -/
def read (folder : Folder) (path : List Char) : Except FileError (Array UInt8) :=
  if path.contains '\x00' then .error .nullByte
  else if maxPathLength < (normalise path).length then .error .tooLong
  else
    match folder.walk path with
    | .ok (.file content) => .ok content
    | .ok _ => .error .isDirectory
    | .error problem => .error problem

end Folder

/-- The message shows the path in its normal form. -/
def FileError.message (path : List Char) (problem : FileError) : String :=
  match problem.number? with
  | none => problem.reason
  | some number =>
      "[Errno " ++ toString number ++ "] " ++ problem.reason ++ ": " ++
        String.ofList (Quoted.write (Folder.normalise path))

end Brainfuck
