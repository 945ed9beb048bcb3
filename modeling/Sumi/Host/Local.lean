import Sumi.Host.Engine
import Sumi.Project.Script

namespace Sumi.Host

open Project

def fetch (files : Files) (url : String) : Except Fault Content :=
  ((readUrl url).run
    { files := files, analyzer := { namespaces := [] }, library := "" }).1

/-- A host without an engine until it is set up, and again when it is torn down. -/
def inProcess : Host (Option Engine) where
  setup _ := ⟨.ok (), some .fresh, ""⟩
  evaluate filename line code
    | none => ⟨.error (.host .notReady), none, ""⟩
    | some e =>
        let r := e.evaluate ⟨filename, line⟩ [code]
        ⟨r.result, some r.state, r.printed⟩
  load files provides url
    | none => ⟨.error (.host .notReady), none, ""⟩
    | some e =>
        if e.has provides then ⟨.ok (), some e, ""⟩
        else
          match fetch files url with
          | .error f => ⟨.error f, some e, ""⟩
          | .ok content =>
              let r := e.load provides url content.program?
              match r.result with
              | .ok outcome =>
                  ⟨if outcome.status = .success then .ok ()
                    else .error (.host (.notLoaded provides outcome.value)),
                    some r.state, r.printed⟩
              | .error f => ⟨.error f, some r.state, r.printed⟩
  tearDown _ := none

end Sumi.Host
