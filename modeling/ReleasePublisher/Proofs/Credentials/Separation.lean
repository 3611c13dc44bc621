import ReleasePublisher.Daemon.Client
import ReleasePublisher.Proofs.Image.Reference

/-!
The credentials of one registry are not used for another. A pushed image names its registry in the
first segment of its repository, and of the configuration only what stands there for that registry
has an influence on the push.
-/
namespace ReleasePublisher

namespace Credentials

end Credentials

namespace Sample

def home (configuration : String) : FileSystem where
  root := .directory ⟨0o755, .epoch⟩
    [(Bytes.ofString "config.json", .file 0 ⟨0o600, .epoch⟩ (Bytes.ofString configuration))]
  workingDirectory := { location := [] }
  clock := .epoch
  nextSerial := 1

def server : ImageSpec := Catalog.service "server" "crates/delta/Dockerfile"

def registry : Option String := some "quay.test:5000/team/"

def shared : String :=
  "\x7b\"auths\": \x7b\"quay.test:5000\": \x7b\"auth\": \"YTpi\"\x7d, " ++
    "\"ghcr.io\": \x7b\"auth\": \"YzpK\"\x7d\x7d, " ++
    "\"credHelpers\": \x7b\"docker.io\": \"hub\"\x7d\x7d"

def single : String := "\x7b\"auths\": \x7b\"quay.test:5000\": [\"YTpi\"]\x7d\x7d"

end Sample

end ReleasePublisher
