import Feagi.Migrate.Model
import Feagi.Migrate.Session
import Feagi.Migrate.Migration
import Feagi.Migrate.Paging
import Feagi.Migrate.Run
import Feagi.Migrate.Writes
import Feagi.Brain.FclQueue
import Feagi.Brain.FclProgress
import Feagi.Brain.Connectome
import Feagi.Brain.BrainKeys
import Feagi.Brain.Persist
import Feagi.Vision.Float64
import Feagi.Vision.Python
import Feagi.Vision.Window
import Feagi.Vision.Brightness
import Feagi.Vision.Kernel
import Feagi.Vision.Rows
import Feagi.Vision.Contrast
import Feagi.Vision.NeuronIds
import Feagi.Vision.Mnist
import Feagi.Vision.MnistRaw
import Feagi.Vision.ImgFetcher
import Feagi.Vision.Stats
