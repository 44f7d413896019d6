import CppAst.Code.Builder
import Mathlib.Logic.Relation

namespace CppAst

inductive CodeTask where
  | write (code : Code)
  | append (text : String)
  | setLevel (level : Nat)

structure CodeWriter where
  builder : CodeBuilder
  tasks : List CodeTask

namespace CodeWriter

def start (b : CodeBuilder) (program : List Code) : CodeWriter := ⟨b, program.map .write⟩

def step? : CodeWriter → Option CodeWriter
  | ⟨_, []⟩ => none
  | ⟨b, .append text :: tasks⟩ => some ⟨{ b with text := b.text ++ text }, tasks⟩
  | ⟨b, .setLevel level :: tasks⟩ => some ⟨{ b with level }, tasks⟩
  | ⟨b, .write code :: tasks⟩ =>
    match code with
    | .line text => some
      ⟨b, List.replicate b.level (.append b.indent.text) ++ .append text :: .append "\n" :: tasks⟩
    | .lines texts => some ⟨b, texts.map (.write <| .line ·) ++ tasks⟩
    | .blank => some ⟨b, .append "\n" :: tasks⟩
    | .indented body => some ⟨b.deeper, body.map .write ++ .setLevel b.level :: tasks⟩
    | .block header close body => some
      ⟨b, .write (.line header) :: .write (.indented body) :: .write (.line close) :: tasks⟩

def Reaches : CodeWriter → CodeWriter → Prop :=
  Relation.ReflTransGen fun w w' ↦ w.step? = some w'

end CodeWriter
end CppAst
