import Sqwar.Data.LittleEndian
import Sqwar.Semantics.Loop
import Sqwar.Semantics.Run
import Sqwar.Capture.Counters
import Sqwar.Capture.Epoch
import Sqwar.Capture.Sessions
import Sqwar.Capture.Shutdown
import Sqwar.Network.LockStep
import Sqwar.Network.Safety
import Sqwar.Network.MdnsDiscovery
import Sqwar.Depth.Reencoding
import Sqwar.Depth.Contents
import Sqwar.Planes.Colors
import Sqwar.Planes.Fitting
import Sqwar.Planes.Adjacency
import Sqwar.Planes.Subdivision
import Sqwar.Octree.Leaves
import Sqwar.Octree.Faces
import Sqwar.Octree.Relative
import Sqwar.Alignment.AlignStep
import Sqwar.Playback.Untouched
import Sqwar.Recording.Survival
import Sqwar.Recording.Truncation
import Sqwar.Stream.Delivery
import Sqwar.Stream.Transmission
import Sqwar.Stream.FaceFile
import Sqwar.Stream.LiveColours
import Sqwar.Stream.Timestamps
import Sqwar.Stream.CameraFrame
import Sqwar.Input.Keys
import Sqwar.Scene.Drawing
import Sqwar.Scene.Bounds
import Sqwar.Alignment.Scoring
