import BlockScript.Json.Basic

/-!
# Folders

A folder holds folders and JSON files, each under its name. A path is a list of steps that ends in the
name of a file. A step goes into a folder; an empty step and a single dot stay, and two dots go to the
folder around.
-/

namespace BlockScript

/-- Folders and files by name. -/
inductive Folder where
  | mk (folders : List (Text × Folder)) (files : List (Text × Json))

namespace Folder

/-- The folder of the given name in a folder. -/
def folder? (name : Text) : Folder → Option Folder
  | .mk folders _ => Dictionary.get? name folders

/-- The file of the given name in a folder. -/
def file? (name : Text) : Folder → Option Json
  | .mk _ files => Dictionary.get? name files

/-- The step that stays in a folder. -/
def stay : Text := ['.']

/-- The step to the folder around. -/
def leave : Text := ['.', '.']

/-- The file that a path leads to from a folder; the folders around it are given from the inside out.
A path that leaves the outermost of them leads nowhere. -/
def follow (around : List Folder) (here : Folder) : List Text → Option Json
  | [] => none
  | [name] => here.file? name
  | step :: next :: rest =>
    if step = [] ∨ step = stay then follow around here (next :: rest)
    else if step = leave then
      match around with
      | [] => none
      | outer :: further => follow further outer (next :: rest)
    else
      match here.folder? step with
      | some inner => follow (here :: around) inner (next :: rest)
      | none => none

end Folder

end BlockScript
