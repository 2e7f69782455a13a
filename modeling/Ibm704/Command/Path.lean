import Ibm704.Text.Glyph

/-!
# File names

Names of files are texts with slashes between their elements.
-/

namespace Ibm704
namespace Path

def slash : UInt8 := 0x2F
def dot : UInt8 := 0x2E

def elements (path : Text) : List Text :=
  path.splitOn slash

/-- The path without the slashes at its end, of which the first alone is the root. -/
def withoutSlashes (path : Text) : Text :=
  let trimmed := (path.reverse.dropWhile (· == slash)).reverse
  if trimmed.isEmpty then path.take 1 else trimmed

def base (path : Text) : Text :=
  let trimmed := withoutSlashes path
  if path.isEmpty then
    [dot]
  else if trimmed = [slash] then
    [slash]
  else
    (trimmed.reverse.takeWhile (· != slash)).reverse

def extension (path : Text) : Text :=
  let last := (path.reverse.takeWhile (· != slash)).reverse
  if last.contains dot then
    dot :: (last.reverse.takeWhile (· != dot)).reverse
  else
    []

def dropEnding (ending text : Text) : Text :=
  if ending.isSuffixOf text then text.take (text.length - ending.length) else text

def cleanElements (rooted : Bool) : List Text → List Text → List Text
  | done, [] => done
  | done, element :: rest =>
      if element.isEmpty ∨ element = [dot] then
        cleanElements rooted done rest
      else if element = [dot, dot] then
        match done with
        | previous :: before =>
            if previous = [dot, dot] then
              cleanElements rooted (element :: done) rest
            else
              cleanElements rooted before rest
        | [] => cleanElements rooted (if rooted then [] else [element]) rest
      else
        cleanElements rooted (element :: done) rest

def clean (path : Text) : Text :=
  let rooted := path.head? = some slash
  let joined := ((cleanElements rooted [] (elements path)).reverse.intersperse [slash]).flatten
  if rooted then
    slash :: joined
  else if joined.isEmpty then
    [dot]
  else
    joined

def directory (path : Text) : Text :=
  clean (path.reverse.dropWhile (· != slash)).reverse

def join (directory name : Text) : Text :=
  clean (directory ++ [slash] ++ name)

def beside (path : Text) (ending : String) : Text :=
  join (directory path) (dropEnding (extension path) (base path) ++ .ofString ending)

end Path
end Ibm704
